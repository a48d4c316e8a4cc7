import PowerArbiter.Client
import PowerArbiter.Proofs.Discipline

namespace PowerArbiter
open Monitor

/-- What a handler calls. -/
def Query.op (ctx : ClientData) (stack : Locals) : Query → Op
  | .stat q => .statReserve q.uid.toUInt32 ctx.pid
  | .get q => .getTapParams q.uid.toUInt32
  | .set q => .setTapParams q.uid.toUInt32 q.tapType q.tapValue
  | .add q => .addReserveParamsForUID stack.tmp q.uid.toUInt32 q.tapType q.tapValue
  | .remove q => .removeReserveParamsForUID q.uid.toUInt32

/-- What it makes of the outcome. An outcome of another operation does not come up. -/
def Query.respond (stack : Locals) : Query → Outcome → Response
  | .stat _, .stat result =>
    if result.ret ≠ 0 then .stat ⟨0, 0, PA_FAILURE⟩
    else .stat ⟨(result.out.getD (stack.rid, stack.flags)).1,
      (result.out.getD (stack.rid, stack.flags)).2, PA_NO_ERROR⟩
  | .get _, .get err out =>
    if err = -ENOENT then .get ⟨0, 0, PA_UID_NOT_FOUND⟩
    else if err = -EPERM then .get ⟨0, 0, PA_BAD_PERMISSIONS⟩
    else if err ≠ 0 then .get ⟨0, 0, PA_FAILURE⟩
    else .get ⟨(out.getD (stack.tapType, stack.tapValue)).1,
      (out.getD (stack.tapType, stack.tapValue)).2, PA_NO_ERROR⟩
  | .set _, .set err error =>
    if err = -EPERM then .set ⟨PA_BAD_PERMISSIONS⟩
    else if err = -EINVAL && error = PA_INVALID_INPUT then .set ⟨PA_INVALID_INPUT⟩
    else if err = -ENOENT then .set ⟨PA_UID_NOT_FOUND⟩
    else if err ≠ 0 then .set ⟨PA_FAILURE⟩
    else .set ⟨PA_NO_ERROR⟩
  | .add _, .add err error =>
    if err = -EEXIST then .add ⟨PA_UID_EXISTS⟩
    else if err = -EINVAL && error = PA_INVALID_INPUT then .add ⟨PA_INVALID_INPUT⟩
    else if err = -EPERM then .add ⟨PA_BAD_PERMISSIONS⟩
    else if err ≠ 0 then .add ⟨PA_FAILURE⟩
    else .add ⟨PA_NO_ERROR⟩
  | .remove _, .remove err =>
    if err = -EPERM then .remove ⟨PA_BAD_PERMISSIONS⟩
    else if err = -ENOENT then .remove ⟨PA_UID_NOT_FOUND⟩
    else if err ≠ 0 then .remove ⟨PA_FAILURE⟩
    else .remove ⟨PA_NO_ERROR⟩
  | _, _ => .remove ⟨PA_FAILURE⟩

/-- Every handler has one operation carried out, and makes a response of its outcome. -/
theorem handleClient_eq (ctx : ClientData) (stack : Locals) (query : Query) :
    handleClient ctx stack query =
      (operation (query.op ctx stack)).bind (fun o => .ret (query.respond stack o)) := by
  cases query
  all_goals
    simp only [handleClient, handleStatReserve, handleGetTapParams, handleSetTapParams,
      handleAddParamsForUid, handleRemoveParamsForUid, Query.op, operation, Query.respond,
      Prog.bind_eq, Prog.pure_eq, Prog.bind_assoc, Prog.ret_bind]
    congr 1
    funext r
    repeat' split
    all_goals rfl

theorem handleClient_runs {ctx : ClientData} {stack : Locals} {query : Query}
    {db db' : ReserveDataDatabase} {es : List (Event sig)} {r : Response} :
    (handleClient ctx stack query).Runs effect db es r db' ↔
      ∃ o, (operation (query.op ctx stack)).Runs effect db es o db' ∧
        r = query.respond stack o := by
  rw [handleClient_eq]
  exact Prog.runs_map (S := sig)

theorem task_balanced : Balanced task := by
  intro t
  cases t with
  | request ctx stack query =>
    simp only [task, handleClient_eq, Prog.bind_eq, Prog.pure_eq, keeps_bind, Keeps]
    exact operation_balanced _
  | pass =>
    simp only [task, Prog.bind_eq, Prog.pure_eq, keeps_bind, Keeps]
    exact clearUnused_keeps

end PowerArbiter
