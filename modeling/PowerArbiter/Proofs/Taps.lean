import PowerArbiter.Monitor.Run
import PowerArbiter.Kernel
import PowerArbiter.Proofs.Containers

namespace PowerArbiter
open Monitor

/-- A change of the database that leaves the taps of the records alone. -/
inductive Untapped (db : ReserveDataDatabase) : ReserveDataDatabase → Prop
  | same : Untapped db db
  | insert {uid data} (hf : db.find uid = none) (hc : data.reserveCreated = false)
      (hv : validParams data.tapType data.tapValue = true) :
      Untapped db { db.allocate ⟨data, uid⟩ with data := db.data ++ [db.next] }
  | remove {p} (hp : p ∈ db.data) :
      Untapped db { db with data := db.data.erase p, deadList := db.deadList ++ [p] }
  | rate {p tapType tapValue} (hp : p ∈ db.data) (hc : (db.heap p).data.reserveCreated = false)
      (hv : validParams tapType tapValue = true) :
      Untapped db (db.modify p (.rated tapType tapValue))
  | bury {ds} (hd : ∀ p ∈ ds, p ∈ db.deadList) : Untapped db (db.bury ds)

/-- A STAT that fails leaves the taps as they were, unless the kernel fails to
delete the new tap. -/
def Undone (K : Taps → Call → Answer → Taps → Prop) (k k' : Taps) : Prop :=
  k' = k ∨ ∃ tap rate, k tap = none ∧ k' = Function.update k tap (some rate) ∧
    ∃ k₁ a k₂, K k₁ (.deleteTap tap) a k₂ ∧ (k₁ tap).isSome ∧ a.ret ≠ 0

/-- What one operation does to the records and the taps together. -/
inductive Tapping (K : Taps → Call → Answer → Taps → Prop) (db : ReserveDataDatabase) (k : Taps)
    (op : Op) (es : List (Event sig)) : ReserveDataDatabase → Taps → Prop
  | quiet {d} (h : Untapped db d) : Tapping K db k op es d k
  | undone {k'} (h : Undone K k k') : Tapping K db k op es db k'
  | create {uid pid p reserve tap a} (hop : op = .statReserve uid pid) (hf : db.find uid = some p)
      (hc : (db.heap p).data.reserveCreated = false) (hn : k tap = none)
      (hm : rateCall tap (db.heap p).data.tapType (db.heap p).data.tapValue a ∈ es) :
      Tapping K db k op es (db.modify p (.created reserve tap)) (Function.update k tap
        (some (longOfType (db.heap p).data.tapType, longOfValue (db.heap p).data.tapValue)))
  | rate {uid p tapType tapValue a} (hop : op = .setTapParams uid tapType tapValue)
      (hv : validParams tapType tapValue = true) (hf : db.find uid = some p)
      (hc : (db.heap p).data.reserveCreated = true)
      (hm : rateCall (db.heap p).data.tapId tapType tapValue a ∈ es) :
      Tapping K db k op es (db.modify p (.rated tapType tapValue))
        (Function.update k (db.heap p).data.tapId
          ((k (db.heap p).data.tapId).map fun _ => (longOfType tapType, longOfValue tapValue)))

variable {db db' : ReserveDataDatabase} {k k' : Taps} {es : List (Event sig)}

theorem Visit.taps {p : RecordPtr} {err err' : Int32} {gone : Bool}
    (h : Visit db p err es err' gone) (hf : Follows tapKernel k es k') : k' = k := by
  cases h <;> simp_all [tapKernel]

theorem Sweep.taps {ps ds : List RecordPtr} {err err' : Int32} (h : Sweep db ps err es err' ds)
    (hf : Follows tapKernel k es k') : k' = k := by
  induction h generalizing k with
  | nil => exact hf
  | cons hv _ ih =>
    obtain ⟨k₁, h₁, h₂⟩ := follows_append.mp hf
    rw [ih h₂, hv.taps h₁]

theorem Exposed.taps {p : RecordPtr} {pid : Pid} {r : StatResult} (h : Exposed db p pid es r)
    (hf : Follows tapKernel k es k') : k' = k := by
  cases h <;> simp_all [tapKernel]

theorem Added.taps {uid : Uid} {data : UIDReserveData} {ret : Int32}
    (h : Added uid data db es ret db') (hf : Follows tapKernel k es k') : k' = k := by
  cases h with
  | busy e => simpa using hf
  | present h => simpa using hf
  | failed h hr => cases hr <;> simp_all [tapKernel]
  | done h hr => cases hr; simp_all [tapKernel]

section Kernel

variable {K : Taps → Call → Answer → Taps → Prop}
  (hK : ∀ k c a k', K k c a k' → tapKernel k c a k')
include hK

theorem Created.undone {p : RecordPtr} {uid : Uid} {root : Int32} {err : Long}
    (h : Created db p uid root es (.error err) db') (hf : Follows K k es k') : Undone K k k' := by
  have ht : Follows tapKernel k es k' := hf.mono hK
  cases h with
  | noReserve ha => exact .inl (by simpa [tapKernel, createCall] using ht)
  | noTap ha hb => exact .inl (by simpa [tapKernel, createCall, tapCall, hb] using ht)
  | @noRate a b c d e ha hb hc =>
    obtain ⟨k₁, h₁, k₂, h₂, k₃, h₃, k₄, h₄, k₅, h₅, hnil⟩ := hf
    have h₁ : k₁ = k := hK _ _ _ _ h₁
    have h₅ : k₅ = k₄ := hK _ _ _ _ h₅
    have h₂ := hK _ _ _ _ h₂
    have h₃ := hK _ _ _ _ h₃
    have hd := hK _ _ _ _ h₄
    have hk : k' = k₄ := Eq.trans hnil h₅
    subst hk h₁
    simp only [tapKernel, hb, hc, ↓reduceIte] at h₂ h₃
    obtain ⟨hn, rate, rfl⟩ := h₂
    subst h₃
    by_cases hret : d.ret = 0
    · left
      simp only [tapKernel, hret, ↓reduceIte] at hd
      rw [hd, Function.update_idem]
      exact Function.update_eq_self_iff.mpr hn.symm
    · right
      simp only [tapKernel, hret, ↓reduceIte] at hd
      exact ⟨b.ret, rate, hn, hd, _, d, _, h₄, by simp, hret⟩

theorem Stated.tapping {uid : Uid} {pid : Pid} {r : StatResult} (h : Stated db uid pid es r db')
    (hf : Follows K k es k') : Tapping K db k (.statReserve uid pid) es db' k' := by
  have quiet (hk : k' = k) : Tapping K db k (.statReserve uid pid) es db k' := by
    subst hk
    exact .quiet .same
  have ht : Follows tapKernel k es k' := hf.mono hK
  cases h with
  | busy e => exact quiet (by simpa [tapKernel] using ht)
  | absent h => exact quiet (by simpa [tapKernel] using ht)
  | recordBusy h e => exact quiet (by simpa [tapKernel] using ht)
  | exposed h hc hx => exact quiet (hx.taps (by simpa [tapKernel] using ht))
  | failed h hc hr =>
    obtain ⟨k₁, h₁, hf⟩ := hf
    have h₁ : k₁ = k := hK _ _ _ _ h₁
    subst h₁
    simp only [follows_lock, follows_lockInner, follows_append, follows_unlockInner,
      follows_unlock, follows_nil] at hf
    obtain ⟨k₂, hf, rfl⟩ := hf
    exact .undone (hr.undone hK hf)
  | @created a p fs gs r d hfind hc hr hx =>
    cases hr with
    | @done a' b c ha hb hc' =>
      have ht : Follows tapKernel k ([_, _, _, _, _, _] ++ gs) k' := ht
      obtain ⟨k₁, h₁, h₂⟩ := follows_append.mp ht
      have hk := hx.taps h₂
      subst hk
      simp only [createCall, tapCall, rateCall, follows_call, follows_lock, follows_lockInner,
        follows_nil, tapKernel, hb, hc', ↓reduceIte, exists_eq_left] at h₁
      obtain ⟨k₂, ⟨hn, rate, rfl⟩, rfl⟩ := h₁
      simp only [Function.update_self, Option.map_some, Function.update_idem]
      exact .create (a := c) rfl hfind hc hn
        (.tail _ (.tail _ (.tail _ (.tail _ (.tail _ (.head _))))))

end Kernel

theorem ParamsSet.tapping {K : Taps → Call → Answer → Taps → Prop} {uid : Uid}
    {tapType : UInt64} {tapValue : Int64} {r : Int32 × UInt32}
    (h : ParamsSet db uid tapType tapValue es r db') (hf : Follows tapKernel k es k') :
    Tapping K db k (.setTapParams uid tapType tapValue) es db' k' := by
  cases h with
  | stored hv hfind hc =>
    have hk : k' = k := by simpa using hf
    subst hk
    exact .quiet (.rate (find_mem hfind).1 hc hv)
  | @accepted p a hv hfind hc ha =>
    simp only [rateCall, follows_lock, follows_lockInner, follows_call, tapKernel, ha, ↓reduceIte,
      follows_unlockInner, follows_unlock, follows_nil, exists_eq_left] at hf
    subst hf
    exact .rate (a := a) rfl hv hfind hc (by simp)
  | refused hv hfind hc ha =>
    have hk : k' = k := by simpa [tapKernel, rateCall, ha] using hf
    subst hk
    exact .quiet .same
  | invalid h =>
    have hk : k' = k := by simpa using hf
    subst hk
    exact .quiet .same
  | _ =>
    have hk : k' = k := by simpa using hf
    subst hk
    exact .quiet .same

theorem Added.untapped {uid : Uid} {data : UIDReserveData} {ret : Int32}
    (h : Added uid data db es ret db') (hc : data.reserveCreated = false)
    (hv : validParams data.tapType data.tapValue = true) : Untapped db db' := by
  cases h with
  | done hf hr => exact .insert hf hc hv
  | _ => exact .same

theorem Got.taps {uid : Uid} {r : Int32 × Option (UInt64 × Int64)} (h : Got db uid es r)
    (hf : Follows tapKernel k es k') : k' = k := by
  cases h <;> simpa using hf

theorem Operated.tapping {K : Taps → Call → Answer → Taps → Prop}
    (hK : ∀ k c a k', K k c a k' → tapKernel k c a k') {op : Op} {r : Outcome}
    (h : Operated db op es r db') (hf : Follows K k es k') : Tapping K db k op es db' k' := by
  have ht : Follows tapKernel k es k' := hf.mono hK
  have quiet {d : ReserveDataDatabase} (hu : Untapped db d) (hk : k' = k) :
      Tapping K db k op es d k' := by
    subst hk
    exact .quiet hu
  cases h with
  | stat h => exact h.tapping hK hf
  | get h => exact quiet .same (h.taps ht)
  | set h => exact h.tapping ht
  | add h =>
    cases h with
    | invalid h => exact quiet .same (by simpa using ht)
    | valid hv h => exact quiet (h.untapped rfl hv) (h.taps ht)
  | remove h =>
    have hk : k' = k := by cases h <;> simpa using ht
    cases h with
    | done hfind => exact quiet (.remove (find_mem hfind).1) hk
    | _ => exact quiet .same hk
  | clear h =>
    cases h with
    | busy e => exact quiet .same (by simpa using ht)
    | done hs =>
      simp only [follows_lock, follows_append, follows_unlock, follows_nil] at ht
      obtain ⟨k₁, h₁, rfl⟩ := ht
      exact quiet (.bury hs.subset) (hs.taps h₁)

end PowerArbiter
