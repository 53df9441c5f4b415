import P1Server.Send
import P1Server.Lib.Threads

/-!
# Buffers and contexts of a pass

* `Owners` — every pass has a `sendBuff` of its own, in every run (`owners`);
* `Calls` — between the writes to `wsaSendBuf` and `WSASend` nobody else writes to it, as long as no two
  passes are there for one client (`Calls.move`). The lock is held shared, so nothing else guarantees it.
-/

namespace P1Server.Send
open Lib

variable {n : Nat} {s s' : State n}

/-- The `sendBuff` of a pass. -/
def owns : Pc → Option Nat
  | .turn b _ => some b
  | .pack j | .sendReq j | .setLen j | .wsaSend j | .sendFailed j => some j.b
  | _ => none

/-- The client whose `wsaSendBuf` a pass has set and not used yet. -/
def between : Pc → Option Socket
  | .setLen j | .wsaSend j => some j.k
  | _ => none

theorem shares_of_between {p : Pc} {k : Socket} (h : between p = some k) : shares p = true := by
  cases p <;> first | rfl | cases h

/-! ## Every pass has its own buffer -/

structure Owners (s : State n) : Prop where
  own : ∀ t b, owns (s.pc t) = some b → (s.buffs b).live = true
  alone : ∀ t u b, owns (s.pc t) = some b → owns (s.pc u) = some b → t = u

theorem Owners.same (h : Owners s) (hpc : s'.pc = s.pc) (hb : s'.buffs = s.buffs) : Owners s' := by
  refine ⟨?_, ?_⟩
  · rw [hpc, hb]
    exact h.own
  · rw [hpc]
    exact h.alone

/-- Thread `t` keeps its buffer or gives it up; no buffer of another thread is freed. -/
theorem Owners.gotoBuff (h : Owners s) {t : Fin n} {p : Pc} (hpc : s'.pc = Function.update s.pc t p)
    (hp : owns p = none ∨ owns p = owns (s.pc t))
    (hl : ∀ b, (∃ u, owns (s'.pc u) = some b) → (s.buffs b).live = true → (s'.buffs b).live = true) :
    Owners s' := by
  have hown : ∀ u b, owns (s'.pc u) = some b → owns (s.pc u) = some b := by
    intro u b hu
    rw [hpc] at hu
    rcases see_update owns hu with ⟨hut, ho⟩ | ⟨-, ho⟩
    · rw [hut]
      rcases hp with hp | hp
      · rw [hp] at ho
        cases ho
      · rwa [← hp]
    · exact ho
  refine ⟨fun u b hu => hl b ⟨u, hu⟩ (h.own u b (hown u b hu)), ?_⟩
  exact fun u v b hu hv => h.alone u v b (hown u b hu) (hown v b hv)

theorem Owners.goto (h : Owners s) {t : Fin n} {p : Pc} (hpc : s'.pc = Function.update s.pc t p)
    (hb : s'.buffs = s.buffs) (hp : owns p = none ∨ owns p = owns (s.pc t)) : Owners s' :=
  h.gotoBuff hpc hp fun _ _ hl => hb ▸ hl

theorem Owners.newBuff (h : Owners s) {t : Fin n} {b : Nat} {cells : Nat → Cell} {temp : TempCmds}
    (hb : (s.buffs b).live = false) : Owners (s.newBuff t b cells temp) := by
  have hown : ∀ u d, owns ((s.newBuff t b cells temp).pc u) = some d →
      u = t ∧ d = b ∨ d ≠ b ∧ owns (s.pc u) = some d := by
    intro u d hu
    rcases at_update (c := (s.newBuff t b cells temp).pc u) rfl with ⟨hut, hp⟩ | ⟨-, hp⟩
    · rw [← hp] at hu
      exact .inl ⟨hut, (Option.some.inj hu).symm⟩
    · rw [← hp] at hu
      refine .inr ⟨?_, hu⟩
      rintro rfl
      rw [h.own u d hu] at hb
      cases hb
  refine ⟨?_, ?_⟩
  · intro u d hu
    rcases hown u d hu with ⟨-, rfl⟩ | ⟨hd, hu⟩
    · simp only [State.newBuff, State.goto, Function.update_self]
    · simp only [State.newBuff, State.goto, Function.update_of_ne hd]
      exact h.own u d hu
  · intro u v d hu hv
    rcases hown u d hu with ⟨hut, he⟩ | ⟨hd, hu⟩ <;> rcases hown v d hv with ⟨hvt, he'⟩ | ⟨hd', hv⟩
    · rw [hut, hvt]
    · exact absurd he hd'
    · exact absurd he' hd
    · exact h.alone u v d hu hv

theorem write_live (b : Buff) (offset : Nat) (l : List Cell) : (b.write offset l).live = b.live := rfl

theorem Owners.move (h : Owners s) {a : Act n} (m : Move s a s') : Owners s' := by
  cases m with
  | addNewClient _ _ => exact h.same rfl rfl
  | removeClient _ => exact h.same rfl rfl
  | removeAllClient _ => exact h.same rfl rfl
  | newBuff _ hb => exact h.newBuff hb
  | @deleteBuff t _ b ht =>
    refine h.gotoBuff (t := t) (p := .idle) rfl (.inl rfl) ?_
    intro d hd hl
    obtain ⟨u, hu⟩ := hd
    have hne : d ≠ b := by
      rintro rfl
      rcases at_update (c := (s.deleteBuff t d).pc u) rfl with ⟨-, hp⟩ | ⟨hut, hp⟩
      · rw [← hp] at hu
        cases hu
      · rw [← hp] at hu
        exact hut (h.alone u t d hu (by rw [ht]; rfl))
    simpa only [State.deleteBuff, State.goto, Function.update_of_ne hne] using hl
  | turn ht => exact h.goto rfl rfl (.inr (by rw [ht]; rfl))
  | @packOne t _ j x vec ht _ _ =>
    refine h.gotoBuff (t := t) rfl (.inr (by rw [ht]; rfl)) ?_
    intro d _ hl
    by_cases hd : d = j.b
    · subst hd
      simpa only [State.packOne, State.goto, Function.update_self, write_live] using hl
    · simpa only [State.packOne, State.goto, Function.update_of_ne hd] using hl
  | packed ht _ => exact h.goto rfl rfl (.inr (by rw [ht]; rfl))
  | packEnd ht _ _ => exact h.goto rfl rfl (.inr (by rw [ht]; rfl))
  | sendReq ht _ => exact h.goto rfl rfl (.inr (by rw [ht]; rfl))
  | noContext ht _ => exact h.goto rfl rfl (.inr (by rw [ht]; rfl))
  | setLen ht =>
    unfold State.setLen
    split <;> exact h.goto rfl rfl (.inr (by rw [ht]; rfl))
  | @wsaSend _ ok _ ht =>
    unfold State.wsaSend
    split
    · exact h.goto rfl rfl (.inr (by rw [ht]; rfl))
    · cases ok <;> exact h.goto rfl rfl (.inr (by rw [ht]; rfl))
  | sendFailed ht _ => exact h.goto rfl rfl (.inr (by rw [ht]; rfl))
  | transmit _ _ _ => exact h.same rfl rfl
  | complete _ _ _ => exact h.same rfl rfl
  -- a caller, or a pass before it has a buffer
  | _ => exact h.goto rfl rfl (.inl rfl)

theorem owners (h : (sys n).Reachable s) : Owners s :=
  h.inv (fun _ hi => hi ▸ ⟨nofun, nofun⟩) fun _ _ _ hi he => hi.move (step_move he)

/-! ## The context between its writes and `WSASend` -/

structure Calls (s : State n) : Prop where
  one : ∀ t u k, between (s.pc t) = some k → between (s.pc u) = some k → t = u
  buf : ∀ t j, s.pc t = .setLen j → ∃ c, s.clientsContext.find j.k = some c ∧ c.buf = j.b
  len : ∀ t j, s.pc t = .wsaSend j → ∃ c, s.clientsContext.find j.k = some c ∧ c.buf = j.b ∧ c.len = j.offset

/-- Nobody is there. -/
theorem Calls.unshared (hu : ∀ t, between (s.pc t) = none) : Calls s := by
  refine ⟨?_, ?_, ?_⟩
  · intro t _ _ ht
    rw [hu] at ht
    cases ht
  · intro t j ht
    have := hu t
    rw [ht] at this
    cases this
  · intro t j ht
    have := hu t
    rw [ht] at this
    cases this

theorem between_unshared (hu : s.unshared) (t : Fin n) : between (s.pc t) = none := by
  cases hb : between (s.pc t) with
  | none => rfl
  | some k =>
    have := shares_of_between hb
    rw [hu t] at this
    cases this

/-- Thread `t` goes elsewhere. -/
theorem Calls.goto (h : Calls s) {t : Fin n} {p : Pc} (hpc : s'.pc = Function.update s.pc t p)
    (hc : s'.clientsContext = s.clientsContext) (hp : between p = none) : Calls s' := by
  have hpc' : ∀ {u k}, between (s'.pc u) = some k → s'.pc u = s.pc u := by
    intro u k hu
    rw [hpc] at hu ⊢
    rcases at_update (c := Function.update s.pc t p u) rfl with ⟨-, he⟩ | ⟨-, he⟩
    · rw [← he, hp] at hu
      cases hu
    · exact he.symm
  refine ⟨?_, ?_, ?_⟩
  · intro u v k hu hv
    exact h.one u v k (hpc' hu ▸ hu) (hpc' hv ▸ hv)
  · intro u j hu
    rw [hc]
    exact h.buf u j (hpc' (u := u) (k := j.k) (by rw [hu]; rfl) ▸ hu)
  · intro u j hu
    rw [hc]
    exact h.len u j (hpc' (u := u) (k := j.k) (by rw [hu]; rfl) ▸ hu)

theorem Calls.same (h : Calls s) (hpc : s'.pc = s.pc) (hc : s'.clientsContext = s.clientsContext) : Calls s' := by
  refine ⟨?_, ?_, ?_⟩
  · rw [hpc]
    exact h.one
  · rw [hpc, hc]
    exact h.buf
  · rw [hpc, hc]
    exact h.len

/-- The first write: alone for this client, by assumption. -/
theorem Calls.sendReq (h : Calls s) {t : Fin n} {j : Job} {c : Context}
    (ha : ∀ u, between (s.pc u) ≠ some j.k) :
    Calls ({ s with clientsContext := s.clientsContext.set j.k { c with buf := j.b } }.goto t (.setLen j)) := by
  have hf : ∀ {k : Socket}, k ≠ j.k → (s.clientsContext.set j.k { c with buf := j.b }).find k =
      s.clientsContext.find k := fun hk => OrdMap.find_set_ne hk
  refine ⟨?_, ?_, ?_⟩
  · intro u v k hu hv
    rcases at_update (c := Function.update s.pc t (.setLen j) u) rfl with ⟨hut, hp⟩ | ⟨-, hp⟩ <;>
      rcases at_update (c := Function.update s.pc t (.setLen j) v) rfl with ⟨hvt, hq⟩ | ⟨-, hq⟩
    · rw [hut, hvt]
    · simp only [State.goto, ← hp, ← hq] at hu hv
      cases hu
      exact absurd hv (ha v)
    · simp only [State.goto, ← hp, ← hq] at hu hv
      cases hv
      exact absurd hu (ha u)
    · simp only [State.goto, ← hp, ← hq] at hu hv
      exact h.one u v k hu hv
  · intro u i hu
    rcases at_update hu with ⟨-, hp⟩ | ⟨-, hp⟩
    · cases hp
      exact ⟨_, OrdMap.find_set_self .., rfl⟩
    · have hk : i.k ≠ j.k := fun he => ha u (by rw [hp, ← he]; rfl)
      obtain ⟨d, hd, hb⟩ := h.buf u i hp
      exact ⟨d, (hf hk).trans hd, hb⟩
  · intro u i hu
    rcases at_update hu with ⟨-, hp⟩ | ⟨-, hp⟩
    · cases hp
    · have hk : i.k ≠ j.k := fun he => ha u (by rw [hp, ← he]; rfl)
      obtain ⟨d, hd, hb⟩ := h.len u i hp
      exact ⟨d, (hf hk).trans hd, hb⟩

/-- The second write: still alone. -/
theorem Calls.setLen (h : Calls s) {t : Fin n} {j : Job} (ht : s.pc t = .setLen j) : Calls (s.setLen t j) := by
  obtain ⟨c, hc, hb⟩ := h.buf t j ht
  have htk : between (s.pc t) = some j.k := by rw [ht]; rfl
  have he : s.setLen t j =
      { s with clientsContext := s.clientsContext.set j.k { c with len := j.offset } }.goto t (.wsaSend j) := by
    simp only [State.setLen, hc]
  have hf : ∀ {u : Fin n} {k : Socket}, u ≠ t → between (s.pc u) = some k →
      (s.clientsContext.set j.k { c with len := j.offset }).find k = s.clientsContext.find k := by
    intro u k hut hu
    refine OrdMap.find_set_ne ?_
    rintro rfl
    exact hut (h.one u t j.k hu htk)
  rw [he]
  refine ⟨?_, ?_, ?_⟩
  · intro u v k hu hv
    have hback : ∀ {w}, between (Function.update s.pc t (.wsaSend j) w) = some k → between (s.pc w) = some k := by
      intro w hw
      rcases at_update (c := Function.update s.pc t (.wsaSend j) w) rfl with ⟨hwt, hp⟩ | ⟨-, hp⟩
      · rw [← hp] at hw
        rw [hwt, htk]
        exact hw
      · rwa [← hp] at hw
    exact h.one u v k (hback hu) (hback hv)
  · intro u i hu
    rcases at_update hu with ⟨-, hp⟩ | ⟨hut, hp⟩
    · cases hp
    · obtain ⟨d, hd, hb⟩ := h.buf u i hp
      exact ⟨d, (hf hut (by rw [hp]; rfl)).trans hd, hb⟩
  · intro u i hu
    rcases at_update hu with ⟨-, hp⟩ | ⟨hut, hp⟩
    · cases hp
      exact ⟨_, OrdMap.find_set_self .., hb, rfl⟩
    · obtain ⟨d, hd, hb⟩ := h.len u i hp
      exact ⟨d, (hf hut (by rw [hp]; rfl)).trans hd, hb⟩

/-- The context that a step writes to first. -/
def setsBuf : Pc → Option Socket
  | .sendReq j => some j.k
  | _ => none

/-- `Calls` is kept by every step that does not let a second pass in. -/
theorem Calls.move (h : Calls s) {a : Act n} (m : Move s a s')
    (ha : ∀ t ok, a = .run t ok → ∀ k ∈ setsBuf (s.pc t), ∀ u, between (s.pc u) ≠ some k) : Calls s' := by
  cases m with
  | addNewClient hu _ => exact .unshared (between_unshared hu)
  | removeClient hu => exact .unshared (between_unshared hu)
  | removeAllClient hu => exact .unshared (between_unshared hu)
  | sendReq ht _ => exact h.sendReq (ha _ _ rfl _ (by rw [ht]; rfl))
  | setLen ht => exact h.setLen ht
  | @wsaSend t ok j _ =>
    unfold State.wsaSend
    split
    · exact h.goto rfl rfl rfl
    · cases ok <;> exact h.goto rfl rfl rfl
  | @sendFailed t _ j _ hu =>
    refine .unshared ?_
    intro u
    rcases at_update (c := Function.update s.pc t (.pack j.sent) u) rfl with ⟨-, hp⟩ | ⟨-, hp⟩
    · exact congrArg between hp.symm
    · exact (congrArg between hp.symm).trans (between_unshared hu u)
  | transmit _ _ _ => exact h.same rfl rfl
  | complete _ _ _ => exact h.same rfl rfl
  -- the thread goes to a place outside `SendReq`
  | _ => exact h.goto rfl rfl rfl

end P1Server.Send
