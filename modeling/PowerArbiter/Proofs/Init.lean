import PowerArbiter.Init

namespace PowerArbiter
open Memory

/-- The name of the socket is not the process's own. -/
def Owned : Resource → Prop
  | .path => False
  | _ => True

theorem Owned.ne {r : Resource} (h : Owned r) : r ≠ .path := by
  rintro rfl
  exact h

/-- What is held beyond `s₀`, and whether the name of the socket is there. -/
structure Account (s₀ : Resource → Nat) (rs : List Resource) (name : Nat)
    (s : Holdings Resource Errno) : Prop where
  net : Net Owned s₀ rs s
  path : s.held .path = name

variable {s₀ : Resource → Nat} {s t : Holdings Resource Errno} {rs : List Resource} {r : Resource}
  {name : Nat} {β : Type}

theorem Account.refl (s : Holdings Resource Errno) : Account s.held [] (s.held .path) s :=
  ⟨.refl s, rfl⟩

/-- The calls to come are not part of it. -/
theorem Account.later (h : Account s₀ rs name s) (ht : t.held = s.held) : Account s₀ rs name t :=
  ⟨h.net.congr fun _ _ => congrFun ht _, by rw [ht]; exact h.path⟩

theorem Account.setPath (h : Account s₀ rs name s) {n : Nat}
    (ht : t.held = Function.update s.held .path n) : Account s₀ rs n t := by
  constructor
  · apply h.net.congr
    intro r hr
    rw [ht, Function.update_of_ne hr.ne]
  · rw [ht, Function.update_self]

theorem Account.change {rs' : List Resource} (h : Account s₀ rs name s) (hnet : Net Owned s₀ rs' t)
    (hr : Owned r) {n : Nat} (ht : t.held = Function.update s.held r n) :
    Account s₀ rs' name t := by
  refine ⟨hnet, ?_⟩
  rw [ht, Function.update_of_ne hr.ne.symm]
  exact h.path

theorem Account.perm {rs' : List Resource} (h : Account s₀ rs name s) (hp : rs.Perm rs') :
    Account s₀ rs' name s := ⟨h.net.perm hp, h.path⟩

theorem Account.trans {rs' : List Resource} {name' : Nat} (h : Account s₀ rs name s)
    (h' : Account s.held rs' name' t) : Account s₀ (rs' ++ rs) name' t :=
  ⟨h.net.trans h'.net, h'.path⟩

/-- A call that takes something takes it or fails. -/
theorem Account.acquire (h : Account s₀ rs name s) (hr : Owned r) :
    Meets Never (acquire r) s fun e t => t.fates = s.fates.tail ∧ s.fates.head?.join = e ∧
      if e = none then Account s₀ (r :: rs) name t else Account s₀ rs name t := by
  apply meets_acquire
  · intro he
    exact ⟨rfl, he, h.change (h.net.add rfl) hr rfl⟩
  · intro e he
    exact ⟨rfl, he, h.later rfl⟩

theorem Account.use (h : Account s₀ rs name s) (hr : r ∈ rs) (hown : Owned r) :
    Meets Never (use r) s fun _ t => t = s :=
  meets_use (h.net.ne_zero hown hr) rfl

/-- Giving back what was taken last. -/
theorem Account.undo {c : Startup β} {Q : β → Holdings Resource Errno → Prop}
    (h : Account s₀ (r :: rs) name s) (hown : Owned r)
    (hc : ∀ t, t.fates = s.fates → Account s₀ rs name t → Meets Never c t Q) :
    Meets Never (do Memory.release r; c) s Q := by
  rw [meets_bind]
  apply meets_release (h.net.ne_zero hown (List.mem_cons_self ..))
  refine hc _ rfl (h.change (n := s.held r - 1) ?_ hown rfl)
  have hnet := h.net.sub (t := ⟨Function.update s.held r (s.held r - 1), s.fates⟩)
    (List.mem_cons_self ..) rfl
  rwa [List.erase_cons_head] at hnet

theorem status_eq_zero {e : Option Errno} : status e = 0 ↔ e = none := by
  cases e with
  | none => simp only [status]
  | some e => simp only [status, e.nonzero, reduceCtorEq]

/-- The name after an `unlink`. -/
def unlinkedName (e : Option Errno) (name : Nat) : Nat := if e.isNone then 0 else name

theorem unlinkPath_account (h : Account s₀ rs name s) :
    Meets Never unlinkPath s fun _ t => t.fates = s.fates.tail ∧
      Account s₀ rs (unlinkedName s.fates.head?.join name) t := by
  simp only [unlinkPath, meets_bind, meets_fate, meets_ite, meets_modify, meets_pure, unlinkedName]
  split
  · exact ⟨trivial, h.setPath rfl⟩
  · exact ⟨trivial, h.later rfl⟩

/-- The error of `bind`, which does not take a name that is there. -/
def bindError (e : Option Errno) (name : Nat) : Option Int32 :=
  (e.map Errno.code).or (if name ≠ 0 then some EADDRINUSE else none)

theorem bindPath_account (h : Account s₀ rs name s) :
    Meets Never bindPath s fun err t => t.fates = s.fates.tail ∧
      (err = 0 ∧ bindError s.fates.head?.join name = none ∧ Account s₀ rs 1 t ∨
        bindError s.fates.head?.join name = some err ∧ Account s₀ rs name t) := by
  simp only [bindPath, bindError, meets_bind, meets_fate]
  cases s.fates.head?.join with
  | some e => exact meets_pure.mpr ⟨rfl, .inr ⟨rfl, h.later rfl⟩⟩
  | none =>
    simp only [meets_bind, meets_get, meets_ite, meets_modify, meets_pure, h.path]
    split
    · exact ⟨trivial, .inr ⟨rfl, h.later rfl⟩⟩
    · exact ⟨trivial, .inl ⟨trivial, rfl, h.setPath rfl⟩⟩

/-- `powerArbiterInitialize` makes nine calls: an allocation and a mutex for the context and again
for the database, a semaphore, and `socket`, `unlink`, `bind` and `listen`. This is the error of
one of them, if its result is looked at. -/
def callError (s : Holdings Resource Errno) : Nat → Option Int32
  | 0 => s.fates[0]?.join.map fun _ => -ENOMEM
  | 2 => s.fates[2]?.join.map fun _ => -ENOMEM
  | 6 => none
  | 7 => bindError s.fates[7]?.join (unlinkedName s.fates[6]?.join (s.held .path))
  | i => s.fates[i]?.join.map Errno.code

theorem callError_ne_zero {i : Nat} {err : Int32} (h : callError s i = some err) : err ≠ 0 := by
  have hcode : ∀ {e : Option Errno}, e.map Errno.code = some err → err ≠ 0 := by
    intro e he
    obtain ⟨e, -, rfl⟩ := Option.map_eq_some_iff.mp he
    exact e.nonzero
  have hmemory : ∀ {e : Option Errno}, e.map (fun _ => -ENOMEM) = some err → err ≠ 0 := by
    intro e he
    obtain ⟨e, -, rfl⟩ := Option.map_eq_some_iff.mp he
    decide
  unfold callError at h
  split at h
  · exact hmemory h
  · exact hmemory h
  · cases h
  · rcases Option.or_eq_some_iff.mp h with he | ⟨-, he⟩
    · exact hcode he
    · split at he
      · cases he
        decide
      · cases he
  · exact hcode h

/-- The call `i` is the first to fail. -/
def Fails (s : Holdings Resource Errno) (i : Nat) (err : Int32) : Prop :=
  callError s i = some err ∧ ∀ j < i, callError s j = none

/-- What is then left of the name of the socket. -/
def nameAfter (s : Holdings Resource Errno) (i : Nat) : Nat :=
  if i < 7 then s.held .path
  else if i = 7 then unlinkedName s.fates[6]?.join (s.held .path)
  else 1

/-- The first `i` calls have been made, and none of them has failed. -/
structure Progressed (s : Holdings Resource Errno) (i : Nat) (rs : List Resource) (name : Nat)
    (t : Holdings Resource Errno) : Prop where
  account : Account s.held rs name t
  fates : t.fates = s.fates.drop i
  before : ∀ j < i, callError s j = none

section Progressed

variable {i : Nat} {err : Int32} {rs' : List Resource} {name' : Nat}

theorem Progressed.head (h : Progressed s i rs name t) : t.fates.head?.join = s.fates[i]?.join := by
  rw [h.fates, List.head?_drop]

theorem Progressed.next (h : Progressed s i rs name t) (hi : callError s i = none)
    {u : Holdings Resource Errno} (hu : Account s.held rs' name' u)
    (hfates : u.fates = t.fates.tail) : Progressed s (i + 1) rs' name' u := by
  refine ⟨hu, ?_, fun j hj => ?_⟩
  · rw [hfates, h.fates, List.tail_drop]
  · rcases Nat.lt_succ_iff_lt_or_eq.mp hj with hj | rfl
    · exact h.before j hj
    · exact hi

theorem Progressed.fails (h : Progressed s i rs name t) (hi : callError s i = some err) :
    Fails s i err := ⟨hi, h.before⟩

/-- An allocation. -/
theorem Progressed.malloc_or {c fail : Startup β} {Q : β → Holdings Resource Errno → Prop}
    (h : Progressed s i rs name t) (hi : callError s i = s.fates[i]?.join.map fun _ => -ENOMEM)
    (hr : Owned r)
    (hfail : ∀ u, Fails s i (-ENOMEM) → Account s.held rs name u → Meets Never fail u Q)
    (hok : ∀ u, Progressed s (i + 1) (r :: rs) name u → Meets Never c u Q) :
    Meets Never (do if (← Memory.acquire r).isSome then fail else c) t Q := by
  rw [meets_bind]
  apply (h.account.acquire hr).mono
  rintro (_ | e) u ⟨hfates, he, hu⟩
  · rw [h.head] at he
    exact hok u (h.next (by rw [hi, he]; rfl) (by simpa only [↓reduceIte] using hu) hfates)
  · rw [h.head] at he
    rw [if_neg (Option.some_ne_none e)] at hu
    exact hfail u (h.fails (by rw [hi, he]; rfl)) hu

/-- Another call that takes something. -/
theorem Progressed.acquire_or {c : Startup β} {Q : β → Holdings Resource Errno → Prop}
    (h : Progressed s i rs name t) (hi : callError s i = s.fates[i]?.join.map Errno.code)
    (hr : Owned r) (fail : Int32 → Startup β)
    (hfail : ∀ err u, Fails s i err → Account s.held rs name u → Meets Never (fail err) u Q)
    (hok : ∀ u, Progressed s (i + 1) (r :: rs) name u → Meets Never c u Q) :
    Meets Never (do
      let err := status (← Memory.acquire r)
      if err ≠ 0 then fail err else c) t Q := by
  rw [meets_bind]
  apply (h.account.acquire hr).mono
  rintro (_ | e) u ⟨hfates, he, hu⟩
  · rw [h.head] at he
    exact hok u (h.next (by rw [hi, he]; rfl) (by simpa only [↓reduceIte] using hu) hfates)
  · rw [h.head] at he
    rw [if_neg (Option.some_ne_none e)] at hu
    rw [meets_ite, if_pos (mt status_eq_zero.mp (Option.some_ne_none e))]
    exact hfail e.code u (h.fails (by rw [hi, he]; rfl)) hu

end Progressed

theorem createListeningUdSock_account (h : Progressed s 5 rs (s.held .path) t) :
    Meets Never createListeningUdSock t fun err u =>
      if err = 0 then Progressed s 9 (.socket :: rs) 1 u
      else ∃ i, 5 ≤ i ∧ i < 9 ∧ Fails s i err ∧ Account s.held rs (nameAfter s i) u := by
  apply h.acquire_or (r := .socket) rfl trivial pure
  · intro err u hfails hu
    rw [meets_pure, if_neg (callError_ne_zero hfails.1)]
    exact ⟨5, by omega, by omega, hfails, hu⟩
  intro u hu
  rw [meets_bind]
  apply (unlinkPath_account hu.account).mono
  rintro _ v ⟨hfates, hv⟩
  rw [hu.head] at hv
  have hv' := hu.next rfl hv hfates
  rw [meets_bind]
  apply (bindPath_account hv).mono
  rintro err w ⟨hfates', hbind⟩
  rw [hv'.head] at hbind
  rcases hbind with ⟨rfl, hbind, hw⟩ | ⟨hbind, hw⟩
  · have hw' := hv'.next hbind hw hfates'
    rw [meets_ite, if_neg (not_not.mpr rfl), meets_bind, meets_fate, hw'.head]
    cases he : s.fates[8]?.join with
    | none =>
      have hlisten : callError s 8 = none := congrArg (Option.map Errno.code) he
      rw [meets_ite, if_neg (not_not.mpr (status_eq_zero.mpr rfl)), meets_pure, if_pos rfl]
      exact hw'.next hlisten (hw.later rfl) rfl
    | some e =>
      have hlisten : callError s 8 = some e.code := congrArg (Option.map Errno.code) he
      have hw := hw.later (t := ⟨w.held, w.fates.tail⟩) rfl
      rw [meets_ite, if_pos (mt status_eq_zero.mp (Option.some_ne_none e))]
      apply hw.undo trivial
      intro x _ hx
      rw [meets_pure, if_neg (mt status_eq_zero.mp (Option.some_ne_none e))]
      exact ⟨8, by omega, by omega, hw'.fails hlisten, hx⟩
  · have hne := callError_ne_zero (s := s) (i := 7) hbind
    rw [meets_ite, if_pos hne]
    apply hw.undo trivial
    intro x _ hx
    rw [meets_pure, if_neg hne]
    exact ⟨7, by omega, by omega, hv'.fails hbind, hx⟩

theorem disposeListeningUdSock_account (h : Account s₀ (.socket :: rs) name s) :
    Meets Never disposeListeningUdSock s fun err t => err = 0 ∧ t.fates = s.fates.tail ∧
      Account s₀ rs (unlinkedName s.fates.head?.join name) t := by
  apply h.undo trivial
  intro t hfates ht
  rw [meets_bind]
  apply (unlinkPath_account ht).mono
  rintro _ u ⟨hfates', hu⟩
  rw [hfates] at hfates' hu
  exact meets_pure.mpr ⟨rfl, hfates', hu⟩

theorem reserveDataDBCreateEmpty_account (h : Progressed s 2 rs name t) :
    Meets Never reserveDataDBCreateEmpty t fun err u =>
      if err = 0 then Progressed s 4 (.databaseLock :: .database :: rs) name u
      else ∃ i, i < 4 ∧ Fails s i err ∧ Account s.held rs name u := by
  apply h.malloc_or (r := .database) rfl trivial
  · intro u hfails hu
    rw [meets_pure, if_neg (callError_ne_zero hfails.1)]
    exact ⟨2, by omega, hfails, hu⟩
  intro u hu
  rw [meets_bind]
  apply (hu.account.acquire (r := .databaseLock) trivial).mono
  rintro (_ | e) v ⟨hfates, he, hv⟩
  · rw [hu.head] at he
    simp only [↓reduceIte] at hv
    rw [meets_ite, if_neg (not_not.mpr (status_eq_zero.mpr rfl)), meets_pure,
      if_pos (status_eq_zero.mpr rfl)]
    exact hu.next (congrArg (Option.map Errno.code) he) hv hfates
  · rw [hu.head] at he
    rw [if_neg (Option.some_ne_none e)] at hv
    have hne : status (some e) ≠ 0 := mt status_eq_zero.mp (Option.some_ne_none e)
    rw [meets_ite, if_pos hne]
    apply hv.undo trivial
    intro w _ hw
    rw [meets_pure, if_neg hne]
    exact ⟨3, by omega, hu.fails (congrArg (Option.map Errno.code) he), hw⟩

/-- The memory stays with the process. -/
theorem reserveDataDBDestroy_account (h : Account s₀ (.databaseLock :: .database :: rs) name s) :
    Meets Never reserveDataDBDestroy s fun err t => err = 0 ∧
      Account s₀ (.database :: rs) name t := by
  rw [reserveDataDBDestroy, meets_bind]
  apply (h.use (List.mem_cons_of_mem _ (List.mem_cons_self ..)) trivial).mono
  rintro _ t rfl
  apply h.undo trivial
  intro u _ hu
  exact meets_pure.mpr ⟨rfl, hu⟩

theorem freeCtx_account {err : Int32} (h : Account s₀ (.context :: rs) name s) :
    Meets Never (freeCtx err) s fun e t => e = err ∧ Account s₀ rs name t := by
  apply h.undo trivial
  intro t _ ht
  exact meets_pure.mpr ⟨rfl, ht⟩

theorem freeMutex_account {err : Int32} (h : Account s₀ (.lock :: .context :: rs) name s) :
    Meets Never (freeMutex err) s fun e t => e = err ∧ Account s₀ rs name t := by
  apply h.undo trivial
  intro t _ ht
  exact freeCtx_account ht

theorem freeDb_account {err : Int32}
    (h : Account s₀ (.databaseLock :: .database :: .lock :: .context :: rs) name s) :
    Meets Never (freeDb err) s fun e t => e = err ∧ Account s₀ (.database :: rs) name t := by
  rw [freeDb, meets_bind]
  apply (reserveDataDBDestroy_account h).mono
  rintro _ t ⟨-, ht⟩
  apply freeMutex_account
  exact ht.perm (@List.perm_middle Resource _ [.lock, .context] _).symm

theorem freeReaperStatus_account {err : Int32} (h : Account s₀
      (.reaperThreadExited :: .databaseLock :: .database :: .lock :: .context :: rs) name s) :
    Meets Never (freeReaperStatus err) s fun e t => e = err ∧
      Account s₀ (.database :: rs) name t := by
  apply h.undo trivial
  intro t _ ht
  exact freeDb_account ht

/-- What `powerArbiterInitialize` leaves to `powerArbiterDestroy`. -/
def inventory : List Resource :=
  [.socket, .reaperThreadExited, .databaseLock, .database, .lock, .context]

/-- If no call fails, the context and all that it needs. Otherwise the error of the first call
that does, and nothing but the memory that `reserveDataDBDestroy` keeps, once there is a database;
and the name of the socket as this call finds it. -/
def Initialized (s : Holdings Resource Errno) :
    Except Int32 PAContext → Holdings Resource Errno → Prop
  | .ok progctx, t => progctx = ⟨true, 0, false⟩ ∧ Progressed s 9 inventory 1 t
  | .error err, t => err ≠ 0 ∧ ∃ i < 9, Fails s i err ∧
      Account s.held (if i < 4 then [] else [.database]) (nameAfter s i) t

/-- Leaving by one of the labels. -/
theorem initialized_error {c : Startup Int32} {i : Nat} {err : Int32} (hi : i < 9)
    (hfails : Fails s i err) (hrs : (if i < 4 then [] else [.database]) = rs)
    (hc : Meets Never c t fun e u => e = err ∧ Account s.held rs (nameAfter s i) u) :
    Meets Never (do return .error (← c)) t (Initialized s) := by
  rw [meets_bind]
  apply hc.mono
  rintro _ u ⟨rfl, hu⟩
  rw [meets_pure]
  exact ⟨callError_ne_zero hfails.1, i, hi, hfails, hrs ▸ hu⟩

theorem powerArbiterInitialize_accounts (s : Holdings Resource Errno) :
    Meets Never powerArbiterInitialize s (Initialized s) := by
  have hstart : Progressed s 0 [] (s.held .path) s :=
    ⟨.refl s, rfl, fun _ hj => absurd hj (Nat.not_lt_zero _)⟩
  apply hstart.malloc_or (r := .context) rfl trivial
  · intro t hfails ht
    rw [meets_pure]
    exact ⟨by decide, 0, by omega, hfails, ht⟩
  intro t ht
  apply ht.acquire_or (r := .lock) rfl trivial
    fun err => do return (.error (← freeCtx err) : Except Int32 PAContext)
  · intro err u hfails hu
    exact initialized_error (by omega) hfails rfl (freeCtx_account hu)
  intro u hu
  rw [meets_bind]
  apply (reserveDataDBCreateEmpty_account hu).mono
  intro err v hv
  rw [meets_ite]
  split
  · rename_i herr
    rw [if_neg herr] at hv
    obtain ⟨i, hi, hfails, hv⟩ := hv
    have hname : nameAfter s i = s.held .path := if_pos (by omega)
    exact initialized_error (by omega) hfails (if_pos hi) (hname ▸ freeMutex_account hv)
  rename_i herr
  rw [if_pos (not_not.mp herr)] at hv
  apply hv.acquire_or (r := .reaperThreadExited) rfl trivial
    fun err => do return (.error (← freeDb err) : Except Int32 PAContext)
  · intro err w hfails hw
    exact initialized_error (by omega) hfails rfl (freeDb_account hw)
  intro w hw
  rw [meets_bind]
  apply (createListeningUdSock_account hw).mono
  intro err x hx
  rw [meets_ite]
  split
  · rename_i herr'
    rw [if_neg herr'] at hx
    obtain ⟨i, hlow, hi, hfails, hx⟩ := hx
    exact initialized_error hi hfails (if_neg (by omega)) (freeReaperStatus_account hx)
  · rename_i herr'
    rw [if_pos (not_not.mp herr')] at hx
    rw [meets_pure]
    exact ⟨rfl, hx⟩

/-- The socket cannot listen, and leaves the name that it has made. -/
theorem powerArbiterInitialize_accounts_listen :
    let s : Holdings Resource Errno := ⟨fun _ => 0, .replicate 8 none ++ [some ⟨98, by decide⟩]⟩
    ∃ t, powerArbiterInitialize s = .ok (.error 98) t ∧ t.held .path = 1 ∧
      Initialized s (.error 98) t := by
  intro s
  obtain ⟨x, t, hx, ht⟩ := (powerArbiterInitialize_accounts s).returns
  obtain ⟨rfl, hpath⟩ : x = .error 98 ∧ t.held .path = 1 := by
    cases hx
    exact ⟨rfl, rfl⟩
  exact ⟨t, hx, hpath, ht⟩

theorem lockContext_account (h : Account s₀ rs name s) (hcontext : .context ∈ rs)
    (hlock : .lock ∈ rs) :
    Meets Never lockContext s fun err t => err = status s.fates.head?.join ∧
      t.fates = s.fates.tail ∧ Account s₀ rs name t := by
  rw [lockContext, meets_bind]
  apply (h.use hcontext trivial).mono
  rintro _ t rfl
  rw [meets_bind]
  apply (h.use hlock trivial).mono
  rintro _ u rfl
  rw [meets_bind, meets_fate, meets_pure]
  exact ⟨rfl, rfl, h.later rfl⟩

/-- It is the first wait without a signal that counts. -/
theorem waitSemaphore_account (h : Account s₀ rs name s) (hr : r ∈ rs) (hown : Owned r) :
    Meets Never (waitSemaphore r) s fun err t =>
      err = status (waited interrupted s.fates).head?.join ∧
      t.fates = (waited interrupted s.fates).tail ∧ Account s₀ rs name t := by
  rw [waitSemaphore, meets_bind]
  apply (h.use hr hown).mono
  rintro _ t rfl
  rw [meets_bind, meets_get, meets_bind]
  apply meets_retry (Nat.lt_succ_self _)
  rw [meets_pure]
  exact ⟨rfl, rfl, h.later rfl⟩

/-- What `signalArbiterInactive` and `signalReaperExit` do. -/
theorem signal_account (progctx : PAContext) (h : Account s₀ rs name s) (hcontext : .context ∈ rs)
    (hlock : .lock ∈ rs) :
    Meets Never (do
      let err ← lockContext
      if err ≠ 0 then
        return .error err
      return (.ok progctx : Except Int32 PAContext)) s fun x t =>
        t.fates = s.fates.tail ∧ Account s₀ rs name t ∧
        (s.fates.head?.join = none ∧ x = .ok progctx ∨
          ∃ e, s.fates.head?.join = some e ∧ x = .error e.code) := by
  rw [meets_bind]
  apply (lockContext_account h hcontext hlock).mono
  rintro _ t ⟨rfl, hfates, ht⟩
  rw [meets_ite, meets_pure, meets_pure]
  cases he : s.fates.head?.join with
  | none =>
    rw [if_neg (not_not.mpr (status_eq_zero.mpr rfl))]
    exact ⟨hfates, ht, .inl ⟨rfl, rfl⟩⟩
  | some e =>
    rw [if_pos (mt status_eq_zero.mp (Option.some_ne_none e))]
    exact ⟨hfates, ht, .inr ⟨e, rfl, rfl⟩⟩

/-- With no users, one look is enough. -/
theorem waitForClientExit_account (progctx : PAContext) (husers : progctx.numUsers = 0)
    (h : Account s₀ rs name s) (hcontext : .context ∈ rs) (hlock : .lock ∈ rs) :
    Meets Never (waitForClientExit progctx 1) s fun err t => err = status s.fates.head?.join ∧
      t.fates = s.fates.tail ∧ Account s₀ rs name t := by
  rw [waitForClientExit, meets_bind]
  apply (lockContext_account h hcontext hlock).mono
  rintro err t ⟨rfl, ht⟩
  rw [if_pos husers, meets_ite, meets_pure, meets_pure]
  split
  · exact ⟨rfl, ht⟩
  · rename_i he
    exact ⟨(not_not.mp he).symm, ht⟩

/-- None of the calls of `powerArbiterDestroy` fails whose results are looked at: it locks the
context, removes the name of the socket, locks the context twice more and waits. -/
structure CleanExit (fates : List (Option Errno)) : Prop where
  inactive : fates[0]?.join = none
  clients : fates[2]?.join = none
  reaper : fates[3]?.join = none
  exited : (waited interrupted (fates.drop 4)).head?.join = none

/-- Either all is given back but the memory of the database, or there is an error. -/
def Destroyed (s₀ : Resource → Nat) (rs : List Resource) (name : Nat)
    (fates : List (Option Errno)) (err : Int32) (t : Holdings Resource Errno) : Prop :=
  err = 0 ∧ CleanExit fates ∧ Account s₀ (.database :: rs) (unlinkedName fates[1]?.join name) t ∨
    err ≠ 0 ∧ ¬CleanExit fates ∧
      (t.held .path = name ∨ t.held .path = unlinkedName fates[1]?.join name)

section Destroyed

variable {fates : List (Option Errno)}

/-- A call whose failure ends it. -/
theorem destroyed_unless {e : Option Errno} {c : Startup Int32}
    (hclean : CleanExit fates → e = none)
    (hpath : s.held .path = unlinkedName fates[1]?.join name)
    (hc : e = none → Meets Never c s (Destroyed s₀ rs name fates)) :
    Meets Never (if status e ≠ 0 then pure (status e) else c) s (Destroyed s₀ rs name fates) := by
  rw [meets_ite, meets_pure]
  split
  · rename_i herr
    have he : e ≠ none := mt status_eq_zero.mpr herr
    exact .inr ⟨herr, fun h => he (hclean h), .inr hpath⟩
  · rename_i herr
    exact hc (status_eq_zero.mp (not_not.mp herr))

/-- What comes after the wait for the reaper. -/
theorem destroyed_account (h : Account s₀
      (.reaperThreadExited :: .databaseLock :: .database :: .lock :: .context :: rs) name s) :
    Meets Never (do
      let err ← reserveDataDBDestroy
      if err ≠ 0 then
        return err
      Memory.release .lock
      Memory.release .reaperThreadExited
      Memory.release .context
      return 0) s fun err t => err = 0 ∧ Account s₀ (.database :: rs) name t := by
  rw [meets_bind]
  apply (reserveDataDBDestroy_account (h.perm
    (@List.perm_middle Resource _ [.databaseLock, .database, .lock] _).symm)).mono
  rintro _ t ⟨rfl, ht⟩
  rw [meets_ite, if_neg (not_not.mpr rfl)]
  apply (ht.perm
    (@List.perm_middle Resource _ [.lock, .reaperThreadExited, .context] _).symm).undo trivial
  intro u _ hu
  apply hu.undo trivial
  intro v _ hv
  apply hv.undo trivial
  intro w _ hw
  exact meets_pure.mpr ⟨rfl, hw⟩

theorem powerArbiterDestroy_accounts {progctx : PAContext} (husers : progctx.numUsers = 0)
    (h : Account s₀ (inventory ++ rs) name s) :
    Meets Never (powerArbiterDestroy progctx) s (Destroyed s₀ rs name s.fates) := by
  have hhead : ∀ {t : Holdings Resource Errno} {n : Nat}, t.fates = s.fates.drop n →
      t.fates.head?.join = s.fates[n]?.join := by
    intro t n ht
    rw [ht, List.head?_drop]
  rw [powerArbiterDestroy, meets_bind]
  apply (signal_account { progctx with active := false } h (by simp [inventory])
    (by simp [inventory])).mono
  rintro x t ⟨hfates, ht, ⟨hinactive, rfl⟩ | ⟨e, he, rfl⟩⟩
  · have hfates : t.fates = s.fates.drop 1 := by rw [hfates, List.drop_one]
    rw [List.head?_eq_getElem?] at hinactive
    simp only [meets_bind]
    apply (disposeListeningUdSock_account ht).mono
    rintro _ u ⟨rfl, hfates', hu⟩
    rw [hhead hfates] at hu
    have hfates' : u.fates = s.fates.drop 2 := by rw [hfates', hfates, List.tail_drop]
    rw [meets_ite, if_neg (not_not.mpr rfl), meets_bind]
    apply (waitForClientExit_account { progctx with active := false } husers hu (by simp)
      (by simp)).mono
    rintro _ v ⟨rfl, hfates'', hv⟩
    rw [hhead hfates']
    have hfates'' : v.fates = s.fates.drop 3 := by rw [hfates'', hfates', List.tail_drop]
    apply destroyed_unless CleanExit.clients hv.path
    intro hclients
    rw [meets_bind]
    apply (signal_account { progctx with active := false, reaperShouldExit := true } hv (by simp)
      (by simp)).mono
    rintro y w ⟨hfates₄, hw, ⟨hreaper, rfl⟩ | ⟨e, he, rfl⟩⟩
    · rw [hhead hfates''] at hreaper
      have hfates₄ : w.fates = s.fates.drop 4 := by rw [hfates₄, hfates'', List.tail_drop]
      simp only [meets_bind]
      apply (waitSemaphore_account (r := .reaperThreadExited) hw (by simp) trivial).mono
      rintro _ x ⟨rfl, -, hx⟩
      rw [hfates₄]
      apply destroyed_unless CleanExit.exited hx.path
      intro hexited
      apply (destroyed_account hx).mono
      rintro _ y ⟨rfl, hy⟩
      exact .inl ⟨rfl, ⟨hinactive, hclients, hreaper, hexited⟩, hy⟩
    · rw [hhead hfates''] at he
      exact meets_pure.mpr (.inr ⟨e.nonzero,
        fun h => Option.some_ne_none e (he.symm.trans h.reaper), .inr hw.path⟩)
  · rw [List.head?_eq_getElem?] at he
    exact meets_pure.mpr (.inr ⟨e.nonzero,
      fun h => Option.some_ne_none e (he.symm.trans h.inactive), .inl ht.path⟩)

end Destroyed

theorem unlinkedName_le {e : Option Errno} (h : name ≤ 1) : unlinkedName e name ≤ 1 := by
  rw [unlinkedName]
  split
  · exact Nat.zero_le 1
  · exact h

theorem nameAfter_le (h : s.held .path ≤ 1) (i : Nat) : nameAfter s i ≤ 1 := by
  rw [nameAfter]
  split
  · exact h
  · split
    · exact unlinkedName_le h
    · exact Nat.le_refl 1

theorem waitForSigterm_account (h : Account s₀ (.keepRunning :: rs) name s) :
    Meets Never waitForSigterm s fun err t => t.held .path = name ∧
      err = status (waited interrupted s.fates).head?.join ∧
      (err = 0 → t.fates = (waited interrupted s.fates).tail ∧ Account s₀ rs name t) := by
  rw [waitForSigterm, meets_bind]
  apply (waitSemaphore_account h (List.mem_cons_self ..) trivial).mono
  rintro err t ⟨he, hfates, ht⟩
  rw [meets_ite]
  split
  · rename_i herr
    exact meets_pure.mpr ⟨ht.path, he, fun h0 => absurd h0 herr⟩
  · rename_i herr
    apply ht.undo trivial
    intro u hfates' hu
    exact meets_pure.mpr ⟨hu.path, he ▸ (not_not.mp herr).symm, fun _ => ⟨hfates'.trans hfates, hu⟩⟩

/-- None of the calls of `main` fails whose results are looked at. A wait that a signal interrupts
does not count. -/
structure CleanRun (s : Holdings Resource Errno) : Prop where
  semaphore : s.fates[0]?.join = none
  handler : s.fates[1]?.join = none
  initialized : ∀ i < 9, callError { s with fates := s.fates.drop 2 } i = none
  reaper : s.fates[11]?.join = none
  receiver : s.fates[12]?.join = none
  sigterm : (waited interrupted (s.fates.drop 13)).head?.join = none
  destroyed : CleanExit (waited interrupted (s.fates.drop 13)).tail

/-- How the process ends. -/
def Exited (s : Holdings Resource Errno) (err : Int32) (t : Holdings Resource Errno) : Prop :=
  err = 0 ∧ CleanRun s ∧ Account s.held [.database, .receiverThread, .reaperThread]
      (unlinkedName (waited interrupted (s.fates.drop 13)).tail[1]?.join 1) t ∨
    err = EXIT_FAILURE ∧ ¬CleanRun s ∧ t.held .path ≤ 1

theorem exited_unless {p : Prop} [Decidable p] {c : Startup Int32} (hpath : t.held .path ≤ 1)
    (hclean : CleanRun s → ¬p) (hc : ¬p → Meets Never c t (Exited s)) :
    Meets Never (if p then pure EXIT_FAILURE else c) t (Exited s) := by
  rw [meets_ite, meets_pure]
  split
  · rename_i hp
    exact .inr ⟨rfl, fun h => hclean h hp, hpath⟩
  · exact hc ‹_›

theorem exited_unless_acquire {n : Nat} {c : Startup Int32} (h : Account s.held rs name t)
    (hname : name ≤ 1) (hfates : t.fates = s.fates.drop n)
    (hclean : CleanRun s → s.fates[n]?.join = none) (hr : Owned r)
    (hc : ∀ u, s.fates[n]?.join = none → u.fates = s.fates.drop (n + 1) →
      Account s.held (r :: rs) name u → Meets Never c u (Exited s)) :
    Meets Never (do if (← acquire r).isSome then return EXIT_FAILURE else c) t (Exited s) := by
  rw [meets_bind]
  apply (h.acquire hr).mono
  rintro (_ | e) u ⟨hlater, he, hu⟩
  · rw [hfates, List.head?_drop] at he
    rw [hfates, List.tail_drop] at hlater
    exact hc u he hlater (by simpa only [↓reduceIte] using hu)
  · rw [hfates, List.head?_drop] at he
    rw [if_neg (Option.some_ne_none e)] at hu
    exact meets_pure.mpr (.inr ⟨rfl,
      fun h => Option.some_ne_none e (he.symm.trans (hclean h)), hu.path ▸ hname⟩)

/-- The end of `main`, once there was a SIGTERM. -/
theorem exited_destroy {progctx : PAContext} (husers : progctx.numUsers = 0)
    (h : Account s.held (inventory ++ [.receiverThread, .reaperThread]) 1 t)
    (hfates : t.fates = (waited interrupted (s.fates.drop 13)).tail)
    (hclean : CleanExit t.fates → CleanRun s) :
    Meets Never (do
      if (← powerArbiterDestroy progctx) ≠ 0 then
        return EXIT_FAILURE
      return 0) t (Exited s) := by
  rw [meets_bind]
  apply (powerArbiterDestroy_accounts husers h).mono
  rintro err u (⟨rfl, hexit, hu⟩ | ⟨herr, hexit, hu⟩)
  · rw [meets_ite, if_neg (not_not.mpr rfl)]
    rw [hfates] at hu
    exact meets_pure.mpr (.inl ⟨rfl, hclean hexit, hu⟩)
  · rw [meets_ite, if_pos herr]
    refine meets_pure.mpr (.inr ⟨rfl, fun hrun => hexit (hfates ▸ hrun.destroyed), ?_⟩)
    rcases hu with hu | hu
    · exact Nat.le_of_eq hu
    · exact hu ▸ unlinkedName_le (Nat.le_refl 1)

/-- However the calls turn out, as long as every wait ends, `main` gives back nothing that it does
not have, and returns 0 just when nothing fails. -/
theorem main_accounts (hpath : s.held .path ≤ 1) :
    Meets Never Startup.main s (Exited s) := by
  apply exited_unless_acquire (n := 0) (r := .keepRunning) (.refl s) hpath rfl
    CleanRun.semaphore trivial
  intro t hsemaphore hfates ht
  rw [meets_bind, meets_fate, hfates, List.head?_drop]
  apply exited_unless (ht.path ▸ hpath) (fun h => by simp [h.handler])
  intro hhandler
  have hhandler : s.fates[1]?.join = none := by simpa using hhandler
  rw [meets_bind]
  apply (powerArbiterInitialize_accounts _).mono
  have hcall : ∀ i, callError ⟨t.held, (s.fates.drop 1).tail⟩ i =
      callError { s with fates := s.fates.drop 2 } i := by
    intro i
    rw [List.tail_drop]
    unfold callError
    rw [ht.path]
  rintro (err | p) u hu
  · obtain ⟨-, i, hi, hfails, hu⟩ := hu
    refine meets_pure.mpr (.inr ⟨rfl, fun h => ?_, ?_⟩)
    · have := h.initialized i hi
      rw [← hcall, hfails.1] at this
      cases this
    · rw [hu.path]
      exact nameAfter_le (ht.path ▸ hpath) i
  obtain ⟨rfl, hu⟩ := hu
  have hinitialized : ∀ i < 9, callError { s with fates := s.fates.drop 2 } i = none :=
    fun i hi => hcall i ▸ hu.before i hi
  have hfates' : u.fates = s.fates.drop 11 := by
    rw [hu.fates, List.tail_drop, List.drop_drop]
  apply exited_unless_acquire (r := .reaperThread) (ht.trans hu.account) (Nat.le_refl 1) hfates'
    CleanRun.reaper trivial
  intro v hreaper hfates'' hv
  apply exited_unless_acquire (r := .receiverThread) hv (Nat.le_refl 1) hfates''
    CleanRun.receiver trivial
  intro w hreceiver hfates₄ hw
  have hw' : Account s.held (.keepRunning :: .receiverThread :: .reaperThread :: inventory) 1 w :=
    hw.perm (by decide)
  rw [meets_bind]
  apply (waitForSigterm_account hw').mono
  rw [hfates₄]
  rintro _ x ⟨hname, rfl, hx⟩
  apply exited_unless (Nat.le_of_eq hname)
    (fun h => not_not.mpr (status_eq_zero.mpr h.sigterm))
  intro herr
  have hsigterm := status_eq_zero.mp (not_not.mp herr)
  obtain ⟨hlater, hx⟩ := hx (not_not.mp herr)
  have hx' : Account s.held (inventory ++ [.receiverThread, .reaperThread]) 1 x :=
    hx.perm (by decide)
  apply exited_destroy rfl hx' hlater
  intro hexit
  rw [hlater] at hexit
  exact ⟨hsemaphore, hhandler, hinitialized, hreaper, hreceiver, hsigterm, hexit⟩

/-- The name of a socket is there from before, and signals interrupt both waits. -/
theorem main_accounts_interrupted :
    let eintr : Option Errno := some ⟨EINTR, by decide⟩
    let s : Holdings Resource Errno := ⟨fun r => if r = .path then 1 else 0,
      .replicate 13 none ++ [eintr, eintr, none, none, none, none, none, eintr]⟩
    ∃ t, Startup.main s = .ok 0 t ∧
      Account s.held [.database, .receiverThread, .reaperThread] 0 t := by
  intro eintr s
  have hclean : CleanRun s := ⟨rfl, rfl, by decide, rfl, rfl, rfl, rfl, rfl, rfl, rfl⟩
  obtain ⟨err, t, hx, ⟨rfl, -, ht⟩ | ⟨-, hnot, -⟩⟩ :=
    (main_accounts (s := s) (Nat.le_refl 1)).returns
  · exact ⟨t, hx, ht⟩
  · exact absurd hclean hnot

end PowerArbiter
