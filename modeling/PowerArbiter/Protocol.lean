import PowerArbiter.Client
import PowerArbiter.Wire.Codec

namespace PowerArbiter
open Wire

def PA_STAT_RESERVE : UInt32 := 1
def PA_GET_TAP_PARAMS : UInt32 := 2
def PA_SET_TAP_PARAMS : UInt32 := 3
def PA_ADD_UID_PARAMS : UInt32 := 4
def PA_REMOVE_UID_PARAMS : UInt32 := 5
def PA_GOODBYE : UInt32 := 6

structure PARequest where
  requestType : UInt32

/-- The layout is that of the target, where integers are stored with the least significant byte
first, and aligned to their size. -/
def PARequest.codec : Codec PARequest :=
  Codec.uint32.cast (⟨·⟩) (·.requestType) (fun _ => rfl) (fun _ => rfl)

def PAStatReserveQuery.codec : Codec PAStatReserveQuery :=
  Codec.uint64.cast (⟨·⟩) (·.uid) (fun _ => rfl) (fun _ => rfl)

def PAStatReserveResponse.codec : Codec PAStatReserveResponse :=
  (Codec.int32.pair (Codec.uint32.pair .uint32 (by decide)) (by decide)).cast
    (fun x => ⟨x.1, x.2.1, x.2.2⟩) (fun r => (r.rid, r.flags, r.error))
    (fun _ => rfl) (fun _ => rfl)

def PAGetTapParamsQuery.codec : Codec PAGetTapParamsQuery :=
  Codec.uint64.cast (⟨·⟩) (·.uid) (fun _ => rfl) (fun _ => rfl)

def PAGetTapParamsResponse.codec : Codec PAGetTapParamsResponse :=
  (Codec.uint64.pair (Codec.int64.pair .uint32 (by decide)) (by decide)).cast
    (fun x => ⟨x.1, x.2.1, x.2.2⟩) (fun r => (r.tapType, r.tapValue, r.error))
    (fun _ => rfl) (fun _ => rfl)

def PASetTapParamsQuery.codec : Codec PASetTapParamsQuery :=
  (Codec.uint64.pair (Codec.uint64.pair .int64 (by decide)) (by decide)).cast
    (fun x => ⟨x.1, x.2.1, x.2.2⟩) (fun q => (q.uid, q.tapType, q.tapValue))
    (fun _ => rfl) (fun _ => rfl)

def PASetTapParamsResponse.codec : Codec PASetTapParamsResponse :=
  Codec.uint32.cast (⟨·⟩) (·.error) (fun _ => rfl) (fun _ => rfl)

def PAAddUIDParamsQuery.codec : Codec PAAddUIDParamsQuery :=
  (Codec.uint64.pair (Codec.int64.pair .uint64 (by decide)) (by decide)).cast
    (fun x => ⟨x.1, x.2.1, x.2.2⟩) (fun q => (q.uid, q.tapValue, q.tapType))
    (fun _ => rfl) (fun _ => rfl)

def PAAddUIDParamsResponse.codec : Codec PAAddUIDParamsResponse :=
  Codec.uint32.cast (⟨·⟩) (·.error) (fun _ => rfl) (fun _ => rfl)

def PARemoveUIDParamsQuery.codec : Codec PARemoveUIDParamsQuery :=
  Codec.uint64.cast (⟨·⟩) (·.uid) (fun _ => rfl) (fun _ => rfl)

def PARemoveUIDParamsResponse.codec : Codec PARemoveUIDParamsResponse :=
  Codec.uint32.cast (⟨·⟩) (·.error) (fun _ => rfl) (fun _ => rfl)

def Query.requestType : Query → UInt32
  | .stat _ => PA_STAT_RESERVE
  | .get _ => PA_GET_TAP_PARAMS
  | .set _ => PA_SET_TAP_PARAMS
  | .add _ => PA_ADD_UID_PARAMS
  | .remove _ => PA_REMOVE_UID_PARAMS

def Query.encode : Query → List Byte
  | .stat q => PAStatReserveQuery.codec.encode q
  | .get q => PAGetTapParamsQuery.codec.encode q
  | .set q => PASetTapParamsQuery.codec.encode q
  | .add q => PAAddUIDParamsQuery.codec.encode q
  | .remove q => PARemoveUIDParamsQuery.codec.encode q

/-- A request on the wire: its type and then its query. -/
def Query.message (q : Query) : List Byte := PARequest.codec.encode ⟨q.requestType⟩ ++ q.encode

def Query.responseSize : Query → Nat
  | .stat _ => PAStatReserveResponse.codec.sizeof
  | .get _ => PAGetTapParamsResponse.codec.sizeof
  | .set _ => PASetTapParamsResponse.codec.sizeof
  | .add _ => PAAddUIDParamsResponse.codec.sizeof
  | .remove _ => PARemoveUIDParamsResponse.codec.sizeof

/-- The response struct of a handler, in memory that held `prior`. -/
def Response.image (prior : Nat → Byte) : Response → List Byte
  | .stat r => PAStatReserveResponse.codec.image prior r
  | .get r => PAGetTapParamsResponse.codec.image prior r
  | .set r => PASetTapParamsResponse.codec.image prior r
  | .add r => PAAddUIDParamsResponse.codec.image prior r
  | .remove r => PARemoveUIDParamsResponse.codec.image prior r

/-- The response that the handler of a request fills in. -/
inductive Replies : Query → Response → Prop where
  | stat (q r) : Replies (.stat q) (.stat r)
  | get (q r) : Replies (.get q) (.get r)
  | set (q r) : Replies (.set q) (.set r)
  | add (q r) : Replies (.add q) (.add r)
  | remove (q r) : Replies (.remove q) (.remove r)

theorem Replies.length_image {q : Query} {r : Response} (h : Replies q r) (prior : Nat → Byte) :
    (r.image prior).length = q.responseSize := by
  cases h <;> exact Codec.length_image _ _ _

example : (Query.add ⟨1, 5, 2⟩).message =
    [4, 0, 0, 0, 1, 0, 0, 0, 0, 0, 0, 0, 5, 0, 0, 0, 0, 0, 0, 0, 2, 0, 0, 0, 0, 0, 0, 0] := by
  decide

example : (Response.get ⟨1, -1, 0⟩).image (fun _ => 170) =
    [1, 0, 0, 0, 0, 0, 0, 0, 255, 255, 255, 255, 255, 255, 255, 255, 0, 0, 0, 0, 170, 170, 170,
      170] := by
  decide

end PowerArbiter
