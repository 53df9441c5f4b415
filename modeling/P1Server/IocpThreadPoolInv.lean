import P1Server.IocpThreadPool

/-!
# Where the contexts of a task are

A context is posted, executed, and posted again, until its callback finds `taskState` 0 and frees it. The callbacks do
not know of each other: the entry of the task, with a `NULL` for each context that is gone, tells the last one.

* `Inv` — the calls, the places of the contexts, the entries, and what has been started after `unRegisterThread`;
* `inv` — it holds as long as the ids have not come round.
-/

namespace P1Server.IocpTest
open Lib

variable {n : Nat} {s s' : State n} {threadSums : UInt32}

/-! ## Where the contexts are -/

/-- The context a thread executes. -/
def held : Pc → Option Nat
  | .idle => none
  | .got c | .running c | .test c | .lock c | .post c => some c

/-- The context whose `fn` the thread is to start, or is to post. -/
def ahead : Pc → Option Nat
  | .got c | .post c => some c
  | _ => none

def has (c : Nat) (p : Pc) : Bool := decide (held p = some c)

/-- How often a context is queued, executed and freed. -/
def places (s : State n) (c : Nat) : Nat := s.queue.count c + atPlaces (has c) s.pc + s.freed.count c

/-- The contexts of a task, in the order in which they were made. -/
def ofTask (s : State n) (id : UInt32) : List Nat := (List.range s.next).filter fun c => decide ((s.heap c).taskId = id)

/-- How many threads execute a context of the task. -/
def executing (s : State n) (id : UInt32) : Nat :=
  atPlaces (fun p => (held p).any fun c => decide ((s.heap c).taskId = id)) s.pc

/-- The slot of a context in the entry of its task. -/
def slot (s : State n) (c : Nat) : Slot := if c ∈ s.freed then none else some c

/-- `registerThread` is through for the task. -/
def Done (s : State n) (id : UInt32) : Prop := ∃ k < s.calls, (s.call k).taskId = id ∧ (s.call k).done = true

/-- What has been started for a task since `unRegisterThread` has returned. -/
def since (s : State n) (r : Return) : List Nat :=
  (s.startLog.drop r.starts).filter fun c => decide ((s.heap c).taskId = r.id)

structure Inv (s : State n) : Prop where
  counter : s.threadTaskId = UInt32.ofNat s.calls
  ids : ∀ k < s.calls, (s.call k).taskId = UInt32.ofNat (k + 1)
  pOvs : ∀ k < s.calls, (s.call k).pOvs = ofTask s (s.call k).taskId
  most : ∀ k < s.calls, (s.call k).pOvs.length ≤ (s.call k).concurrency.toNat ∧ 0 < (s.call k).concurrency.toNat
  full : ∀ k < s.calls, (s.call k).done = true → (s.call k).pOvs.length = (s.call k).concurrency.toNat
  owner : ∀ c < s.next, ∃ k < s.calls, (s.call k).taskId = (s.heap c).taskId
  place : ∀ c, places s c = if c < s.next then 1 else 0
  entry : ∀ id v, s.threadTasks.find id = some v →
    Done s id ∧ v = (ofTask s id).map (slot s) ∧ ∃ c ∈ ofTask s id, c ∉ s.freed
  gone : ∀ id, Done s id → s.threadTasks.find id = none → ∀ c ∈ ofTask s id, c ∈ s.freed
  zero : ∀ c < s.next, (s.heap c).taskState = 0 → Done s (s.heap c).taskId ∧ (s.heap c).taskId ∈ s.called
  lock : ∀ t c, s.pc t = .lock c → (s.heap c).taskState = 0
  freed : ∀ c ∈ s.freed, (s.heap c).taskState = 0
  marking : ∀ id rest, s.marking = some (id, rest) → Done s id ∧ id ∈ s.called ∧
    (∀ c, some c ∈ rest → c < s.next ∧ (s.heap c).taskId = id) ∧
    ∀ c ∈ ofTask s id, c ∉ s.freed → (s.heap c).taskState = 0 ∨ some c ∈ rest
  returned : ∀ r ∈ s.returns, r.result = true →
    Done s r.id ∧ ∀ c ∈ ofTask s r.id, c ∉ s.freed → (s.heap c).taskState = 0
  late : ∀ r ∈ s.returns, r.result = true → r.starts ≤ s.startLog.length ∧ (since s r).Nodup ∧
    ∀ c ∈ since s r, c ∉ s.queue ∧ ∀ t, ahead (s.pc t) ≠ some c
  log : ∀ c ∈ s.startLog, c < s.next

theorem mem_ofTask {id : UInt32} {c : Nat} : c ∈ ofTask s id ↔ c < s.next ∧ (s.heap c).taskId = id := by
  simp [ofTask]

theorem ofTask_nodup (s : State n) (id : UInt32) : (ofTask s id).Nodup := List.nodup_range.filter _

theorem ofTask_congr (hn : s'.next = s.next) (hid : ∀ c, (s'.heap c).taskId = (s.heap c).taskId) (id : UInt32) :
    ofTask s' id = ofTask s id := by
  simp only [ofTask, hn, hid]

theorem has_pos {t : Fin n} {c : Nat} (ht : held (s.pc t) = some c) : 0 < atPlaces (has c) s.pc :=
  atPlaces_pos (t := t) (by simp [has, ht])

/-- A context that is somewhere has been made. -/
theorem Inv.lt_of_places (h : Inv s) {c : Nat} (hc : 0 < places s c) : c < s.next := by
  rw [h.place c] at hc
  split at hc
  · assumption
  · cases hc

theorem Inv.held_lt (h : Inv s) {t : Fin n} {c : Nat} (ht : held (s.pc t) = some c) : c < s.next := by
  have hpos := has_pos ht
  apply h.lt_of_places
  rw [places]
  omega

theorem Inv.freed_lt (h : Inv s) {c : Nat} (hc : c ∈ s.freed) : c < s.next := by
  have hpos := List.count_pos_iff.2 hc
  apply h.lt_of_places
  rw [places]
  omega

/-- A context that is executed is not queued and not freed. -/
theorem Inv.only_held (h : Inv s) {t : Fin n} {c : Nat} (ht : held (s.pc t) = some c) : c ∉ s.queue ∧ c ∉ s.freed := by
  have hp := h.place c
  have hpos := has_pos ht
  rw [places, if_pos (h.held_lt ht)] at hp
  rw [← List.count_eq_zero, ← List.count_eq_zero]
  omega

/-- Two threads do not execute one context. -/
theorem Inv.held_inj (h : Inv s) {t u : Fin n} {c : Nat} (ht : held (s.pc t) = some c) (hu : held (s.pc u) = some c) :
    t = u := by
  have hp := h.place c
  have hle : atPlaces (has c) s.pc ≤ 1 := by
    rw [places] at hp
    split at hp <;> omega
  exact Finset.card_le_one.1 hle t (by simp [has, ht]) u (by simp [has, hu])

theorem held_of_ahead {p : Pc} {c : Nat} (h : ahead p = some c) : held p = some c := by
  cases p <;> simp_all [ahead, held]

theorem ahead_update {pc : Fin n → Pc} {t : Fin n} {p : Pc} {c : Nat} (hp : ahead p ≠ some c)
    (h : ∀ u, u ≠ t → ahead (pc u) ≠ some c) (u : Fin n) : ahead (Function.update pc t p u) ≠ some c := by
  intro hu
  rcases see_update ahead hu with ⟨-, ha⟩ | ⟨hut, ha⟩
  · exact hp ha
  · exact h u hut ha

/-- While the ids have not come round, a task has one call. -/
theorem Inv.call_inj (h : Inv s) (hlt : s.calls < 2 ^ 32) {j k : Nat} (hj : j < s.calls) (hk : k < s.calls)
    (he : (s.call j).taskId = (s.call k).taskId) : j = k := by
  rw [h.ids j hj, h.ids k hk] at he
  have hn := congrArg UInt32.toNat he
  rw [UInt32.toNat_ofNat_of_lt' (by show j + 1 < 2 ^ 32; omega),
    UInt32.toNat_ofNat_of_lt' (by show k + 1 < 2 ^ 32; omega)] at hn
  omega

/-! ## The IO threads -/

/-- A step of an IO thread outside the lock. -/
theorem Inv.exec (h : Inv s) (pc : Fin n → Pc) {queue log : List Nat}
    (hplace : ∀ c, places { s with pc, queue, startLog := log } c = places s c)
    (hlock : ∀ t c, pc t = .lock c → (s.heap c).taskState = 0)
    (hlate : ∀ r ∈ s.returns, r.result = true → r.starts ≤ log.length ∧
      (since { s with pc, queue, startLog := log } r).Nodup ∧
      ∀ c ∈ since { s with pc, queue, startLog := log } r, c ∉ queue ∧ ∀ t, ahead (pc t) ≠ some c)
    (hlog : ∀ c ∈ log, c < s.next) : Inv { s with pc, queue, startLog := log } :=
  ⟨h.counter, h.ids, h.pOvs, h.most, h.full, h.owner, fun c => (hplace c).trans (h.place c), h.entry, h.gone, h.zero,
    hlock, h.freed, h.marking, h.returned, hlate, hlog⟩

/-- A thread gives a context up, or takes one, where the queue and `freed` do the contrary. -/
theorem places_move {t : Fin n} {p : Pc} {d : Nat} (hpc : s'.pc = Function.update s.pc t p)
    (h : s'.queue.count d + (if has d p then 1 else 0) + s'.freed.count d =
      s.queue.count d + (if has d (s.pc t) then 1 else 0) + s.freed.count d) : places s' d = places s d := by
  have ha := atPlaces_update (has d) s.pc t p
  rw [places, places, hpc]
  omega

theorem places_goto {t : Fin n} {p : Pc} (hp : held p = held (s.pc t)) (c : Nat) :
    places (s.goto t p) c = places s c :=
  places_move rfl (by rw [has, has, hp]; rfl)

/-- The thread does not go to `lock` with a context whose state is not 0. -/
theorem Inv.lock_update (h : Inv s) {t : Fin n} {p : Pc} (hp : ∀ c, p = .lock c → (s.heap c).taskState = 0)
    (u : Fin n) (c : Nat) (hu : Function.update s.pc t p u = .lock c) : (s.heap c).taskState = 0 := by
  rcases at_update hu with ⟨-, hp'⟩ | ⟨-, hu⟩
  · exact hp c hp'
  · exact h.lock u c hu

/-- A step within `callBackFunction`. -/
theorem Inv.goto (h : Inv s) {t : Fin n} {p : Pc} (hp : held p = held (s.pc t))
    (hlock : ∀ c, p = .lock c → (s.heap c).taskState = 0)
    (hpost : ∀ c, ahead p = some c → (s.heap c).taskState ≠ 0 ∧ c ∉ s.freed) : Inv (s.goto t p) := by
  refine h.exec _ (places_goto hp) (h.lock_update hlock) ?_ h.log
  intro r hr hres
  obtain ⟨hlen, hnd, hq⟩ := h.late r hr hres
  refine ⟨hlen, hnd, fun c hc => ⟨(hq c hc).1, ahead_update ?_ fun u _ => (hq c hc).2 u⟩⟩
  intro ha
  obtain ⟨hmem, hid⟩ := List.mem_filter.1 hc
  have hof : c ∈ ofTask s r.id := mem_ofTask.2 ⟨h.log c (List.mem_of_mem_drop hmem), of_decide_eq_true hid⟩
  exact (hpost c ha).1 ((h.returned r hr hres).2 c hof (hpost c ha).2)

/-- A thread gets a packet. -/
theorem Inv.get (h : Inv s) {t : Fin n} {c : Nat} (ht : s.pc t = .idle) (hc : c ∈ s.queue) :
    Inv { s.goto t (.got c) with queue := s.queue.erase c } := by
  refine h.exec (Function.update s.pc t (.got c)) (fun d => places_move rfl ?_) (h.lock_update (by simp))
    ?_ h.log
  · have hq := (List.perm_cons_erase hc).count_eq d
    rw [List.count_cons] at hq
    simp [has, held, ht, hq]
  · intro r hr hres
    obtain ⟨hlen, hnd, hq⟩ := h.late r hr hres
    refine ⟨hlen, hnd, fun d hd => ⟨fun hm => (hq d hd).1 (List.mem_of_mem_erase hm),
      ahead_update ?_ fun u _ => (hq d hd).2 u⟩⟩
    intro ha
    cases ha
    exact (hq c hd).1 hc

/-- A thread calls `fn`. -/
theorem Inv.start (h : Inv s) {t : Fin n} {c : Nat} (ht : s.pc t = .got c) :
    Inv { s.goto t (.running c) with startLog := s.startLog ++ [c] } := by
  have hheld : held (s.pc t) = some c := by rw [ht]; rfl
  refine h.exec (Function.update s.pc t (.running c)) (fun d => places_move rfl ?_) (h.lock_update (by simp))
    ?_ ?_
  · simp [has, held, ht, State.goto]
  · intro r hr hres
    obtain ⟨hlen, hnd, hq⟩ := h.late r hr hres
    have hnot : c ∉ since s r := fun hd => (hq c hd).2 t (by rw [ht]; rfl)
    have hsince : (s.startLog ++ [c]).drop r.starts = s.startLog.drop r.starts ++ [c] :=
      List.drop_append_of_le_length hlen
    simp only [since, hsince, List.filter_append]
    refine ⟨hlen.trans (by simp), List.nodup_append.2 ⟨hnd, (List.nodup_singleton c).filter _, ?_⟩, ?_⟩
    · intro d hd e he
      rw [List.mem_singleton.1 (List.mem_of_mem_filter he)]
      exact fun hdc => hnot (hdc ▸ hd)
    · intro d hd
      rcases List.mem_append.1 hd with hd | hd
      · exact ⟨(hq d hd).1, ahead_update (by simp [ahead]) fun u _ => (hq d hd).2 u⟩
      · cases List.mem_singleton.1 (List.mem_of_mem_filter hd)
        refine ⟨(h.only_held hheld).1, ahead_update (by simp [ahead]) ?_⟩
        intro u hut ha
        exact hut (h.held_inj (held_of_ahead ha) hheld)
  · intro d hd
    rcases List.mem_append.1 hd with hd | hd
    · exact h.log d hd
    · exact List.mem_singleton.1 hd ▸ h.held_lt hheld

/-- The packet is posted again. -/
theorem Inv.postAgain (h : Inv s) {t : Fin n} {c : Nat} (ht : s.pc t = .post c) :
    Inv { s.goto t .idle with queue := s.queue ++ [c] } := by
  have hheld : held (s.pc t) = some c := by rw [ht]; rfl
  refine h.exec (Function.update s.pc t .idle) (fun d => places_move rfl ?_) (h.lock_update (by simp))
    ?_ h.log
  · simp [has, held, ht, List.count_singleton]
  · intro r hr hres
    obtain ⟨hlen, hnd, hq⟩ := h.late r hr hres
    refine ⟨hlen, hnd, fun d hd => ⟨?_, ahead_update (by simp [ahead]) fun u _ => (hq d hd).2 u⟩⟩
    intro hm
    rcases List.mem_append.1 hm with hm | hm
    · exact (hq d hd).1 hm
    · exact (hq d hd).2 t (by rw [ht, List.mem_singleton.1 hm]; rfl)

/-! ## The last part of a context -/

/-- The entry of a task in `lock`: the thread's own slot is there. -/
theorem Inv.find_lock (h : Inv s) {t : Fin n} {c : Nat} (ht : s.pc t = .lock c) :
    s.threadTasks.find (s.heap c).taskId = some ((ofTask s (s.heap c).taskId).map (slot s)) := by
  have hheld : held (s.pc t) = some c := by rw [ht]; rfl
  have hlt := h.held_lt hheld
  have hdone := (h.zero c hlt (h.lock t c ht)).1
  cases hf : s.threadTasks.find (s.heap c).taskId with
  | none => exact absurd (h.gone _ hdone hf c (mem_ofTask.2 ⟨hlt, rfl⟩)) (h.only_held hheld).2
  | some v => rw [(h.entry _ v hf).2.1]

/-- `sweep` clears the slot of the context, which is there once. -/
theorem sweep_slots (c : Nat) (l freed : List Nat) :
    sweep c (l.map fun d => if d ∈ freed then none else some d) =
      l.map fun d => if d ∈ freed ++ [c] then none else some d := by
  rw [sweep, List.map_map]
  refine List.map_congr_left ?_
  intro d _
  by_cases hd : d ∈ freed <;> by_cases hdc : d = c <;> simp [hd, hdc]

theorem count_slots {c : Nat} {l : List Nat} {freed : List Nat} (hl : l.Nodup) (hc : c ∈ l) (hf : c ∉ freed) :
    (l.map fun d => if d ∈ freed then none else some d).count (some c) = 1 := by
  induction l with
  | nil => cases hc
  | cons d l ih =>
    obtain ⟨hd, hl⟩ := List.nodup_cons.1 hl
    rw [List.map_cons, List.count_cons]
    by_cases hdc : d = c
    · subst hdc
      have hz : (l.map fun e => if e ∈ freed then none else some e).count (some d) = 0 := by
        rw [List.count_eq_zero, List.mem_map]
        rintro ⟨e, he, hes⟩
        split at hes <;> cases hes
        exact hd he
      simp [hz, hf]
    · rw [ih hl ((List.mem_cons.1 hc).resolve_left (Ne.symm hdc))]
      by_cases hdf : d ∈ freed <;> simp [hdf, hdc]

/-- The state after the context was freed, with the entries `m`. -/
def freedState (s : State n) (t : Fin n) (c : Nat) (m : OrdMap UInt32 (List Slot)) : State n :=
  { s.goto t .idle with freed := s.freed ++ [c], threadTasks := m }

/-- The locked part of `callBackFunction`: the context is freed, and the entry goes with the last one. -/
theorem Inv.free_eq (h : Inv s) {t : Fin n} {c : Nat} (ht : s.pc t = .lock c) :
    ∃ m, s.free t c = freedState s t c m ∧ (∀ id, id ≠ (s.heap c).taskId → m.find id = s.threadTasks.find id) ∧
      ((∀ d ∈ ofTask s (s.heap c).taskId, d ∈ s.freed ++ [c]) → m.find (s.heap c).taskId = none) ∧
      ((∃ d ∈ ofTask s (s.heap c).taskId, d ∉ s.freed ++ [c]) → m.find (s.heap c).taskId =
        some ((ofTask s (s.heap c).taskId).map fun d => if d ∈ s.freed ++ [c] then none else some d)) := by
  have hheld : held (s.pc t) = some c := by rw [ht]; rfl
  have hmem := mem_ofTask.2 ⟨h.held_lt hheld, rfl⟩
  have hf := h.find_lock ht
  have hone := count_slots (ofTask_nodup s _) hmem (h.only_held hheld).2
  have hsweep := sweep_slots c (ofTask s (s.heap c).taskId) s.freed
  have hslot : slot s = fun d => if d ∈ s.freed then none else some d := rfl
  rw [hslot] at hf
  have hzero : ((ofTask s (s.heap c).taskId).map fun d =>
      if d ∈ s.freed ++ [c] then none else some d).countP Option.isSome = 0 ↔
        ∀ d ∈ ofTask s (s.heap c).taskId, d ∈ s.freed ++ [c] := by
    rw [List.countP_eq_zero]
    constructor
    · intro hz d hd
      by_contra hn
      exact hz _ (List.mem_map_of_mem hd) (by rw [if_neg hn]; rfl)
    · intro hall o ho
      obtain ⟨d, hd, rfl⟩ := List.mem_map.1 ho
      simp [hall d hd]
  simp only [State.free, hf, hone, hsweep, hzero, List.replicate_one]
  split
  case isTrue hall =>
    refine ⟨_, rfl, fun id hid => OrdMap.find_erase_ne hid, fun _ => OrdMap.find_erase_self .., ?_⟩
    rintro ⟨d, hd, hn⟩
    exact absurd (hall d hd) hn
  case isFalse hn =>
    exact ⟨_, rfl, fun id hid => OrdMap.find_set_ne hid, fun hall => absurd hall hn, fun _ => OrdMap.find_set_self ..⟩

theorem Inv.free (h : Inv s) {t : Fin n} {c : Nat} (ht : s.pc t = .lock c) : Inv (s.free t c) := by
  have hheld : held (s.pc t) = some c := by rw [ht]; rfl
  have hlt := h.held_lt hheld
  have hz := h.lock t c ht
  obtain ⟨m, he, hother, hnone, hsome⟩ := h.free_eq ht
  rw [he]
  have hfree : ∀ {d}, d ∉ s.freed ++ [c] → d ∉ s.freed := fun hd hm => hd (List.mem_append_left _ hm)
  have hmem : ∀ {id d}, id ≠ (s.heap c).taskId → d ∈ ofTask s id → d ∉ s.freed → d ∉ s.freed ++ [c] := by
    intro id d hid hd hdf hm
    rcases List.mem_append.1 hm with hm | hm
    · exact hdf hm
    · exact hid (List.mem_singleton.1 hm ▸ (mem_ofTask.1 hd).2.symm)
  refine ⟨h.counter, h.ids, h.pOvs, h.most, h.full, h.owner, ?_, ?_, ?_,
    h.zero, h.lock_update (by simp), ?_, ?_, ?_, ?_, h.log⟩
  · intro d
    refine (places_move (p := .idle) rfl ?_).trans (h.place d)
    simp [has, held, ht, freedState, State.goto, List.count_singleton]
    omega
  · intro id v hv
    replace hv : m.find id = some v := hv
    by_cases hid : id = (s.heap c).taskId
    · subst hid
      by_cases hall : ∀ d ∈ ofTask s (s.heap c).taskId, d ∈ s.freed ++ [c]
      · rw [hnone hall] at hv
        cases hv
      · have hex : ∃ d ∈ ofTask s (s.heap c).taskId, d ∉ s.freed ++ [c] := by
          by_contra hn
          exact hall fun d hd => by_contra fun hnd => hn ⟨d, hd, hnd⟩
        rw [hsome hex] at hv
        cases hv
        exact ⟨(h.zero c hlt hz).1, rfl, hex⟩
    · obtain ⟨hdone, hv', d, hd, hdf⟩ := h.entry id v ((hother id hid).symm.trans hv)
      refine ⟨hdone, hv'.trans (List.map_congr_left ?_), d, hd, hmem hid hd hdf⟩
      intro e he
      by_cases hef : e ∈ s.freed
      · simp [slot, freedState, hef]
      · rw [slot, if_neg hef]
        exact (if_neg (hmem hid he hef)).symm
  · intro id hdone hn d hd
    replace hn : m.find id = none := hn
    by_cases hid : id = (s.heap c).taskId
    · subst hid
      by_contra hnd
      rw [hsome ⟨d, hd, hnd⟩] at hn
      cases hn
    · exact List.mem_append_left _ (h.gone id hdone ((hother id hid).symm.trans hn) d hd)
  · intro d hd
    rcases List.mem_append.1 hd with hd | hd
    · exact h.freed d hd
    · exact List.mem_singleton.1 hd ▸ hz
  · intro id rest hm
    obtain ⟨hdone, hcal, hrest, hall⟩ := h.marking id rest hm
    exact ⟨hdone, hcal, hrest, fun d hd hn => hall d hd (hfree hn)⟩
  · intro r hr hres
    obtain ⟨hdone, hall⟩ := h.returned r hr hres
    exact ⟨hdone, fun d hd hn => hall d hd (hfree hn)⟩
  · intro r hr hres
    obtain ⟨hlen, hnd, hq⟩ := h.late r hr hres
    exact ⟨hlen, hnd, fun d hd => ⟨(hq d hd).1, ahead_update (by simp [ahead]) fun u _ => (hq d hd).2 u⟩⟩

/-! ## `registerThread` -/

theorem Done.mono {id : UInt32} (h : Done s id) (hc : s.calls ≤ s'.calls)
    (hk : ∀ k < s.calls, (s.call k).done = true → s'.call k = s.call k) : Done s' id := by
  obtain ⟨k, hlt, hid, hd⟩ := h
  exact ⟨k, hlt.trans_le hc, by rw [hk k hlt hd]; exact hid, by rw [hk k hlt hd]; exact hd⟩

/-- The call `r` starts. -/
def begun (s : State n) (r : Call) : State n :=
  { s with threadTaskId := s.threadTaskId + 1, call := Function.update s.call s.calls r, calls := s.calls + 1 }

theorem begun_old {r : Call} {k : Nat} (hk : k < s.calls) : (begun s r).call k = s.call k :=
  Function.update_of_ne (Nat.ne_of_lt hk) ..

theorem begun_new (r : Call) : (begun s r).call s.calls = r := Function.update_self ..

/-- What holds of the calls that were there and of the new one holds of all. -/
theorem forall_begun {r : Call} {P : Nat → Call → Prop} (h : ∀ k < s.calls, P k (s.call k)) (hr : P s.calls r) :
    ∀ k < s.calls + 1, P k ((begun s r).call k) := by
  intro k hk
  rcases Nat.lt_succ_iff_lt_or_eq.1 hk with hk | rfl
  · rw [begun_old hk]
    exact h k hk
  · rw [begun_new]
    exact hr

theorem done_begun {r : Call} (hd : r.done = false) {id : UInt32} : Done (begun s r) id ↔ Done s id := by
  constructor
  · rintro ⟨k, hk, hid, hdone⟩
    rcases Nat.lt_succ_iff_lt_or_eq.1 hk with hk | rfl
    · rw [begun_old hk] at hid hdone
      exact ⟨k, hk, hid, hdone⟩
    · rw [begun_new, hd] at hdone
      cases hdone
  · exact fun h => h.mono (Nat.le_succ _) fun k hk _ => begun_old hk

/-- The new id is no context's. -/
theorem Inv.id_new (h : Inv s) (hlt : s.calls + 1 < 2 ^ 32) : ofTask s (UInt32.ofNat (s.calls + 1)) = [] := by
  refine List.eq_nil_iff_forall_not_mem.2 ?_
  intro c hc
  obtain ⟨hcn, hid⟩ := mem_ofTask.1 hc
  obtain ⟨k, hk, hkc⟩ := h.owner c hcn
  rw [hid, h.ids k hk] at hkc
  have hn := congrArg UInt32.toNat hkc
  rw [UInt32.toNat_ofNat_of_lt' (by show k + 1 < 2 ^ 32; omega), UInt32.toNat_ofNat_of_lt' hlt] at hn
  omega

theorem Inv.begun (h : Inv s) (hlt : s.calls + 1 < 2 ^ 32) {r : Call} (hid : r.taskId = s.threadTaskId + 1)
    (hp : r.pOvs = []) (hd : r.done = false) (hc : 0 < r.concurrency.toNat) : Inv (begun s r) := by
  have hnew : s.threadTaskId + 1 = UInt32.ofNat (s.calls + 1) := by
    rw [h.counter, UInt32.ofNat_add]
    rfl
  have hdone : ∀ {id}, Done (IocpTest.begun s r) id ↔ Done s id := done_begun hd
  refine ⟨hnew, ?_, ?_, ?_, ?_, ?_, h.place, ?_, fun id hdn => h.gone id (hdone.1 hdn),
    ?_, h.lock, h.freed, ?_, ?_, h.late, h.log⟩
  · exact forall_begun (P := fun k r => r.taskId = UInt32.ofNat (k + 1)) h.ids (hid.trans hnew)
  · exact forall_begun (P := fun k r => r.pOvs = ofTask s r.taskId) h.pOvs (by rw [hp, hid, hnew, h.id_new hlt])
  · exact forall_begun (P := fun k r => r.pOvs.length ≤ r.concurrency.toNat ∧ 0 < r.concurrency.toNat) h.most
      ⟨by simp [hp], hc⟩
  · exact forall_begun (P := fun k r => r.done = true → r.pOvs.length = r.concurrency.toNat) h.full (by simp [hd])
  · intro c hcn
    obtain ⟨k, hk, hkc⟩ := h.owner c hcn
    refine ⟨k, Nat.lt_succ_of_lt hk, ?_⟩
    rw [begun_old hk]
    exact hkc
  · intro id v hv
    exact ⟨hdone.2 (h.entry id v hv).1, (h.entry id v hv).2⟩
  · intro c hcn hz
    exact ⟨hdone.2 (h.zero c hcn hz).1, (h.zero c hcn hz).2⟩
  · intro id rest hm
    exact ⟨hdone.2 (h.marking id rest hm).1, (h.marking id rest hm).2⟩
  · intro q hq hres
    exact ⟨hdone.2 (h.returned q hq hres).1, (h.returned q hq hres).2⟩

section Post

variable {k : Nat}

theorem heap_post {c : Nat} (hc : c < s.next) : (s.post k).heap c = s.heap c :=
  Function.update_of_ne (Nat.ne_of_lt hc) ..

theorem call_post (j : Nat) : (s.post k).call j =
    if j = k then { s.call k with pOvs := (s.call k).pOvs ++ [s.next] } else s.call j := by
  simp only [State.post, Function.update_apply]

theorem taskId_post (j : Nat) : ((s.post k).call j).taskId = (s.call j).taskId := by
  rw [call_post]
  split
  case isTrue h => rw [h]
  case isFalse => rfl

theorem ofTask_post (id : UInt32) :
    ofTask (s.post k) id = ofTask s id ++ if (s.call k).taskId = id then [s.next] else [] := by
  have hold : ∀ c ∈ List.range s.next, decide (((s.post k).heap c).taskId = id) = decide ((s.heap c).taskId = id) :=
    fun c hc => by rw [heap_post (List.mem_range.1 hc)]
  have hnew : ((s.post k).heap s.next).taskId = (s.call k).taskId := by simp [State.post]
  rw [ofTask, show (s.post k).next = s.next + 1 from rfl, List.range_succ, List.filter_append, List.filter_congr hold,
    List.filter_singleton, hnew, ofTask]
  split <;> simp [*]

theorem done_post {id : UInt32} : Done (s.post k) id ↔ Done s id := by
  have hd : ∀ j, ((s.post k).call j).done = (s.call j).done := fun j => by
    rw [call_post]
    split
    case isTrue h => rw [h]
    case isFalse => rfl
  simp only [Done, taskId_post, hd]
  rfl

/-- A task that is through gets no more contexts. -/
theorem Inv.ofTask_done (h : Inv s) (hlt : s.calls < 2 ^ 32) (hk : k < s.calls) (hnd : (s.call k).done ≠ true)
    {id : UInt32} (hd : Done s id) : ofTask (s.post k) id = ofTask s id := by
  obtain ⟨j, hj, hid, hdone⟩ := hd
  have hne : (s.call k).taskId ≠ id := fun he => by
    rw [h.call_inj hlt hk hj (he.trans hid.symm)] at hnd
    exact hnd hdone
  rw [ofTask_post, if_neg hne, List.append_nil]

theorem Inv.post (h : Inv s) (hlt : s.calls < 2 ^ 32) (hk : k < s.calls)
    (hless : (s.call k).pOvs.length < (s.call k).concurrency.toNat) : Inv (s.post k) := by
  have hnd : (s.call k).done ≠ true := fun hd => by
    have := h.full k hk hd
    omega
  have hof : ∀ {id}, Done s id → ofTask (s.post k) id = ofTask s id := h.ofTask_done hlt hk hnd
  have hmem : ∀ {id c}, Done s id → c ∈ ofTask (s.post k) id → c < s.next ∧ c ∈ ofTask s id := fun hd hc => by
    rw [hof hd] at hc
    exact ⟨(mem_ofTask.1 hc).1, hc⟩
  refine ⟨h.counter, fun j hj => (taskId_post j).trans (h.ids j hj), ?_, ?_, ?_,
    ?_, ?_, ?_, ?_, ?_, ?_,
    ?_, ?_, ?_, ?_,
    fun c hc => Nat.lt_succ_of_lt (h.log c hc)⟩
  · intro j hj
    rw [taskId_post, ofTask_post, call_post]
    by_cases hjk : j = k
    · rw [if_pos hjk, hjk, if_pos rfl, h.pOvs k hk]
    · rw [if_neg hjk, if_neg fun he => hjk (h.call_inj hlt hk hj he).symm, List.append_nil, h.pOvs j hj]
  · intro j hj
    rw [call_post]
    split
    case isTrue => simpa using ⟨hless, (h.most k hk).2⟩
    case isFalse => exact h.most j hj
  · intro j hj hd
    rw [call_post] at hd ⊢
    split at hd
    case isTrue => exact absurd hd hnd
    case isFalse hjk =>
      rw [if_neg hjk]
      exact h.full j hj hd
  · intro c hc
    rcases Nat.lt_succ_iff_lt_or_eq.1 hc with hc | rfl
    · obtain ⟨j, hj, hjc⟩ := h.owner c hc
      exact ⟨j, hj, by rw [taskId_post, heap_post hc, hjc]⟩
    · exact ⟨k, hk, by rw [taskId_post]; simp [State.post]⟩
  · intro c
    have hp := h.place c
    simp only [places, State.post, List.count_append, List.count_singleton] at hp ⊢
    by_cases hc : c = s.next
    · subst hc
      simp at hp ⊢
      omega
    · have hcn : s.next ≠ c := Ne.symm hc
      have hiff : c < s.next + 1 ↔ c < s.next := by omega
      simp only [hiff, ← hp]
      simp [hcn]
  · intro id v hv
    obtain ⟨hd, hv', c, hc, hcf⟩ := h.entry id v hv
    rw [done_post, hof hd]
    exact ⟨hd, hv', c, hc, hcf⟩
  · intro id hd hn c hc
    have hd' := done_post.1 hd
    exact h.gone id hd' hn c (hmem hd' hc).2
  · intro c hc hz
    rcases Nat.lt_succ_iff_lt_or_eq.1 hc with hc | rfl
    · rw [heap_post hc] at hz ⊢
      rw [done_post]
      exact h.zero c hc hz
    · simp [State.post] at hz
  · intro t c ht
    have hc := h.held_lt (t := t) (c := c) (by rw [show s.pc t = .lock c from ht]; rfl)
    rw [heap_post hc]
    exact h.lock t c ht
  · intro c hc
    rw [heap_post (h.freed_lt hc)]
    exact h.freed c hc
  · intro id rest hm
    obtain ⟨hd, hcal, hrest, hall⟩ := h.marking id rest hm
    refine ⟨done_post.2 hd, hcal, ?_, ?_⟩
    · intro c hc
      rw [heap_post (hrest c hc).1]
      exact ⟨Nat.lt_succ_of_lt (hrest c hc).1, (hrest c hc).2⟩
    · intro c hc hcf
      obtain ⟨hcn, hc⟩ := hmem hd hc
      rw [heap_post hcn]
      exact hall c hc hcf
  · intro r hr hres
    obtain ⟨hd, hall⟩ := h.returned r hr hres
    refine ⟨done_post.2 hd, ?_⟩
    intro c hc hcf
    obtain ⟨hcn, hc⟩ := hmem hd hc
    rw [heap_post hcn]
    exact hall c hc hcf
  · intro r hr hres
    obtain ⟨hlen, hnd', hq⟩ := h.late r hr hres
    have hlog : ∀ c ∈ s.startLog.drop r.starts, c < s.next := fun c hc => h.log c (List.mem_of_mem_drop hc)
    have hsince : since (s.post k) r = since s r := List.filter_congr fun c hc => by rw [heap_post (hlog c hc)]
    rw [hsince]
    refine ⟨hlen, hnd', fun c hc => ⟨?_, (hq c hc).2⟩⟩
    intro hm
    rcases List.mem_append.1 hm with hm | hm
    · exact (hq c hc).1 hm
    · have := hlog c (List.mem_of_mem_filter hc)
      rw [List.mem_singleton.1 hm] at this
      exact Nat.lt_irrefl _ this

end Post

/-- The entry is put into the map. -/
theorem Inv.put (h : Inv s) (hlt : s.calls < 2 ^ 32) {k : Nat} (hk : k < s.calls) (hnd : (s.call k).done = false)
    (hfull : (s.call k).pOvs.length = (s.call k).concurrency.toNat) : Inv (s.put k) := by
  have hcall : ∀ j, (s.put k).call j = if j = k then { s.call k with done := true } else s.call j := fun j => by
    simp only [State.put, Function.update_apply]
  have hsame : ∀ {P : Call → Prop}, (∀ r d, P r → P { r with done := d }) →
      ∀ j, P (s.call j) → P ((s.put k).call j) := by
    intro P hP j hj
    rw [hcall]
    split
    case isTrue he => exact hP _ _ (he ▸ hj)
    case isFalse => exact hj
  have hid : ∀ j, ((s.put k).call j).taskId = (s.call j).taskId := fun j =>
    hsame (P := fun r => r.taskId = (s.call j).taskId) (fun _ _ h => h) j rfl
  have hdone : ∀ {id}, Done s id → Done (s.put k) id := fun hd => hd.mono (Nat.le_refl _) fun j hj hjd => by
    rw [hcall, if_neg]
    rintro rfl
    rw [hnd] at hjd
    cases hjd
  have hself : Done (s.put k) (s.call k).taskId := ⟨k, hk, hid k, by rw [hcall, if_pos rfl]⟩
  have hold : ∀ {id}, id ≠ (s.call k).taskId → Done (s.put k) id → Done s id := by
    rintro id hne ⟨j, hj, hji, hjd⟩
    rw [hid] at hji
    rw [hcall, if_neg fun he => hne (by rw [← hji, he])] at hjd
    exact ⟨j, hj, hji, hjd⟩
  have hfreed : ∀ c ∈ (s.call k).pOvs, c ∉ s.freed := by
    intro c hc hcf
    rw [h.pOvs k hk] at hc
    obtain ⟨j, hj, hji, hjd⟩ := (h.zero c (h.freed_lt hcf) (h.freed c hcf)).1
    rw [(mem_ofTask.1 hc).2] at hji
    rw [h.call_inj hlt hj hk hji, hnd] at hjd
    cases hjd
  refine ⟨h.counter, fun j hj => (hid j).trans (h.ids j hj), ?_, ?_, ?_,
    ?_, h.place, ?_, ?_, ?_, h.lock, h.freed, ?_,
    ?_, h.late, h.log⟩
  · intro j hj
    exact hsame (P := fun r => r.pOvs = ofTask s r.taskId) (fun _ _ h => h) j (h.pOvs j hj)
  · intro j hj
    exact hsame (P := fun r => r.pOvs.length ≤ r.concurrency.toNat ∧ 0 < r.concurrency.toNat) (fun _ _ h => h) j
      (h.most j hj)
  · intro j hj
    rw [hcall]
    split
    case isTrue => exact fun _ => hfull
    case isFalse => exact h.full j hj
  · intro c hc
    obtain ⟨j, hj, hjc⟩ := h.owner c hc
    exact ⟨j, hj, (hid j).trans hjc⟩
  · intro id v hv
    replace hv : (s.threadTasks.set (s.call k).taskId ((s.call k).pOvs.map some)).find id = some v := hv
    rw [OrdMap.find_set] at hv
    split at hv
    case isTrue he =>
      cases hv
      subst he
      have hpos := (h.most k hk).2
      refine ⟨hself, ?_, ?_⟩
      · rw [h.pOvs k hk]
        refine List.map_congr_left ?_
        intro c hc
        rw [slot]
        exact (if_neg (hfreed c (by rw [h.pOvs k hk]; exact hc))).symm
      · obtain ⟨c, hc⟩ := List.exists_mem_of_length_pos (hfull ▸ hpos)
        exact ⟨c, by rw [h.pOvs k hk] at hc; exact hc, hfreed c hc⟩
    case isFalse => exact ⟨hdone (h.entry id v hv).1, (h.entry id v hv).2⟩
  · intro id hd hn
    replace hn : (s.threadTasks.set (s.call k).taskId ((s.call k).pOvs.map some)).find id = none := hn
    rw [OrdMap.find_set] at hn
    split at hn
    case isTrue => cases hn
    case isFalse hne => exact h.gone id (hold hne hd) hn
  · intro c hc hz
    exact ⟨hdone (h.zero c hc hz).1, (h.zero c hc hz).2⟩
  · intro id rest hm
    exact ⟨hdone (h.marking id rest hm).1, (h.marking id rest hm).2⟩
  · intro r hr hres
    exact ⟨hdone (h.returned r hr hres).1, (h.returned r hr hres).2⟩

/-! ## `unRegisterThread` -/

theorem mem_slots {l : List Nat} {c : Nat} : some c ∈ l.map (slot s) ↔ c ∈ l ∧ c ∉ s.freed := by
  simp only [List.mem_map, slot]
  constructor
  · rintro ⟨d, hd, hdc⟩
    split at hdc <;> cases hdc
    exact ⟨hd, ‹_›⟩
  · exact fun ⟨hc, hf⟩ => ⟨c, hc, if_neg hf⟩

theorem Inv.unRegister (h : Inv s) (hmark : s.marking = none) (id : UInt32) : Inv (s.unRegisterThread id) := by
  have hzero : ∀ c < s.next, (s.heap c).taskState = 0 → Done s (s.heap c).taskId ∧ (s.heap c).taskId ∈ id :: s.called :=
    fun c hc hz => ⟨(h.zero c hc hz).1, List.mem_cons_of_mem _ (h.zero c hc hz).2⟩
  rw [State.unRegisterThread]
  split
  case h_1 hf =>
    have hold : ∀ r ∈ s.returns ++ [⟨id, false, s.startLog.length⟩], r.result = true → r ∈ s.returns := by
      intro r hr hres
      rcases List.mem_append.1 hr with hr | hr
      · exact hr
      · rw [List.mem_singleton.1 hr] at hres
        cases hres
    refine ⟨h.counter, h.ids, h.pOvs, h.most, h.full, h.owner, h.place, h.entry, h.gone, hzero, h.lock, h.freed,
      ?_, fun r hr hres => h.returned r (hold r hr hres) hres,
      fun r hr hres => h.late r (hold r hr hres) hres, h.log⟩
    intro j rest hm
    rw [show s.marking = some (j, rest) from hm] at hmark
    cases hmark
  case h_2 v hf =>
    obtain ⟨hd, rfl, -⟩ := h.entry id v hf
    refine ⟨h.counter, h.ids, h.pOvs, h.most, h.full, h.owner, h.place, h.entry, h.gone, hzero, h.lock, h.freed,
      ?_, h.returned, h.late, h.log⟩
    intro j rest hm
    cases hm
    exact ⟨hd, List.mem_cons_self, fun c hc => mem_ofTask.1 (mem_slots.1 hc).1,
      fun c hc hcf => .inr (mem_slots.2 ⟨hc, hcf⟩)⟩

/-- `unRegisterThread` returns. -/
theorem Inv.return (h : Inv s) {id : UInt32} (hm : s.marking = some (id, [])) :
    Inv { s with marking := none, returns := s.returns ++ [⟨id, true, s.startLog.length⟩] } := by
  obtain ⟨hd, -, -, hall⟩ := h.marking id [] hm
  refine ⟨h.counter, h.ids, h.pOvs, h.most, h.full, h.owner, h.place, h.entry, h.gone, h.zero, h.lock, h.freed,
    fun j rest hm => (by cases hm), ?_, ?_, h.log⟩
  · intro r hr hres
    rcases List.mem_append.1 hr with hr | hr
    · exact h.returned r hr hres
    · rw [List.mem_singleton.1 hr]
      exact ⟨hd, fun c hc hcf => (hall c hc hcf).resolve_right (by simp)⟩
  · intro r hr hres
    rcases List.mem_append.1 hr with hr | hr
    · exact h.late r hr hres
    · rw [List.mem_singleton.1 hr]
      have hnil : since s ⟨id, true, s.startLog.length⟩ = [] := by simp [since]
      refine ⟨Nat.le_refl _, hnil ▸ List.nodup_nil, ?_⟩
      intro c hc
      replace hc : c ∈ since s ⟨id, true, s.startLog.length⟩ := hc
      rw [hnil] at hc
      cases hc

/-- `unRegisterThread` sets the state of a context to 0. -/
theorem Inv.mark (h : Inv s) {id : UInt32} {c : Nat} {rest : List Slot} (hm : s.marking = some (id, some c :: rest)) :
    Inv { s with heap := Function.update s.heap c { s.heap c with taskState := 0 }, marking := some (id, rest) } := by
  obtain ⟨hd, hcal, hrest, hall⟩ := h.marking id _ hm
  have hcid := hrest c List.mem_cons_self
  have hid : ∀ d, (Function.update s.heap c { s.heap c with taskState := 0 } d).taskId = (s.heap d).taskId := by
    intro d
    by_cases hdc : d = c
    · rw [hdc, Function.update_self]
    · rw [Function.update_of_ne hdc]
  have hz : ∀ d, (s.heap d).taskState = 0 →
      (Function.update s.heap c { s.heap c with taskState := 0 } d).taskState = 0 := fun d hd => by
    by_cases hdc : d = c
    · rw [hdc, Function.update_self]
    · rw [Function.update_of_ne hdc]
      exact hd
  have hof : ∀ j, ofTask { s with
      heap := Function.update s.heap c { s.heap c with taskState := 0 }, marking := some (id, rest) } j = ofTask s j :=
    ofTask_congr rfl hid
  have hsince : ∀ r, since { s with
      heap := Function.update s.heap c { s.heap c with taskState := 0 }, marking := some (id, rest) } r = since s r :=
    fun r => List.filter_congr fun d _ => by rw [hid]
  refine ⟨h.counter, h.ids, ?_, h.most, h.full, ?_, h.place, ?_,
    ?_, ?_, fun t d ht => hz d (h.lock t d ht), fun d hdf => hz d (h.freed d hdf), ?_,
    ?_, ?_, h.log⟩
  · intro k hk
    rw [hof]
    exact h.pOvs k hk
  · intro d hdn
    obtain ⟨k, hk, hkd⟩ := h.owner d hdn
    exact ⟨k, hk, hkd.trans (hid d).symm⟩
  · intro j v hv
    rw [hof]
    exact h.entry j v hv
  · intro j hj hn
    rw [hof]
    exact h.gone j hj hn
  · intro d hdn hdz
    simp only [hid] at hdz ⊢
    by_cases hdc : d = c
    · rw [hdc, hcid.2]
      exact ⟨hd, hcal⟩
    · rw [Function.update_of_ne hdc] at hdz
      exact h.zero d hdn hdz
  · intro j l hm'
    cases hm'
    refine ⟨hd, hcal, ?_, ?_⟩
    · intro d hdr
      simp only [hid]
      exact hrest d (List.mem_cons_of_mem _ hdr)
    · intro d hdm hdf
      rw [hof] at hdm
      rcases hall d hdm hdf with hdz | hdr
      · exact .inl (hz d hdz)
      · rcases List.mem_cons.1 hdr with he | hdr
        · cases he
          exact .inl (by simp)
        · exact .inr hdr
  · intro r hr hres
    obtain ⟨hrd, hrall⟩ := h.returned r hr hres
    refine ⟨hrd, ?_⟩
    intro d hdm hdf
    rw [hof] at hdm
    exact hz d (hrall d hdm hdf)
  · intro r hr hres
    rw [hsince]
    exact h.late r hr hres

/-! ## The runs -/

theorem Inv.step (h : Inv s) (hlt : s'.calls < 2 ^ 32) {a : Act n} (he : step threadSums s a = some s') : Inv s' := by
  cases a with
  | registerThread fn param concurrency =>
    simp only [IocpTest.step, State.registerThread, Option.some.injEq] at he
    subst he
    generalize (if concurrency = THREAD_CONCURRENCY_MAX then threadSums else concurrency) = sums at *
    split
    case isTrue => exact h
    case isFalse hn =>
      rw [if_neg hn] at hlt
      refine h.begun hlt rfl rfl rfl (Nat.pos_of_ne_zero fun hz => (not_or.1 hn).1 ?_)
      exact UInt32.toNat_inj.1 hz
  | post k =>
    obtain ⟨⟨hk, hless⟩, ⟨⟩⟩ := Option.ite_none_right_eq_some.1 he
    exact h.post hlt hk hless
  | put k =>
    obtain ⟨⟨hk, hnd, hfull, -⟩, ⟨⟩⟩ := Option.ite_none_right_eq_some.1 he
    exact h.put hlt hk hnd hfull
  | unRegisterThread id =>
    obtain ⟨hm, ⟨⟩⟩ := Option.ite_none_right_eq_some.1 he
    exact h.unRegister hm id
  | mark =>
    simp only [IocpTest.step] at he
    cases hm : s.marking with
    | none =>
      rw [hm] at he
      cases he
    | some p =>
      obtain ⟨id, slots⟩ := p
      rw [hm] at he
      match slots, he with
      | [], he =>
        cases he
        exact h.return hm
      | some c :: rest, he =>
        cases he
        exact h.mark hm
  | get t c =>
    obtain ⟨⟨ht, hc⟩, ⟨⟩⟩ := Option.ite_none_right_eq_some.1 he
    exact h.get ht hc
  | run t =>
    simp only [IocpTest.step] at he
    cases ht : s.pc t with
    | idle =>
      rw [ht] at he
      cases he
    | got c =>
      rw [ht] at he
      cases he
      exact h.start ht
    | running c =>
      rw [ht] at he
      cases he
      exact h.goto (by rw [ht]; rfl) (by simp) (by simp [ahead])
    | test c =>
      have hheld : held (s.pc t) = some c := by rw [ht]; rfl
      rw [ht] at he
      cases he
      by_cases hz : (s.heap c).taskState = 0
      · rw [if_pos hz]
        refine h.goto (by rw [ht]; rfl) ?_ (by simp [ahead])
        intro d hd
        cases hd
        exact hz
      · rw [if_neg hz]
        refine h.goto (by rw [ht]; rfl) (by simp) ?_
        intro d hd
        cases hd
        exact ⟨hz, (h.only_held hheld).2⟩
    | lock c =>
      rw [ht] at he
      obtain ⟨-, ⟨⟩⟩ := Option.ite_none_right_eq_some.1 he
      exact h.free ht
    | post c =>
      rw [ht] at he
      cases he
      exact h.postAgain ht

theorem calls_mono {a : Act n} (he : step threadSums s a = some s') : s.calls ≤ s'.calls := by
  cases a with
  | registerThread fn param concurrency =>
    simp only [step, State.registerThread, Option.some.injEq] at he
    subst he
    generalize (if concurrency = THREAD_CONCURRENCY_MAX then threadSums else concurrency) = sums
    split
    case isTrue => exact Nat.le_refl _
    case isFalse => exact Nat.le_succ _
  | post k | put k | get t c =>
    obtain ⟨-, ⟨⟩⟩ := Option.ite_none_right_eq_some.1 he
    exact Nat.le_refl _
  | unRegisterThread id =>
    obtain ⟨-, ⟨⟩⟩ := Option.ite_none_right_eq_some.1 he
    rw [State.unRegisterThread]
    split <;> exact Nat.le_refl _
  | mark =>
    simp only [step] at he
    split at he
    case h_1 id slots _ =>
      match slots, he with
      | [], he | some c :: rest, he =>
        cases he
        exact Nat.le_refl _
    case h_2 => cases he
  | run t =>
    simp only [step] at he
    split at he
    case h_1 => cases he
    case h_5 c _ =>
      obtain ⟨-, ⟨⟩⟩ := Option.ite_none_right_eq_some.1 he
      simp only [State.free]
      split
      · exact Nat.le_refl _
      · split <;> exact Nat.le_refl _
    all_goals
      cases he
      exact Nat.le_refl _

theorem inv (h : (sys n threadSums).Reachable s) (hlt : s.calls < 2 ^ 32) : Inv s := by
  refine Sys.Reachable.inv (I := fun s => s.calls < 2 ^ 32 → Inv s) ?_
    (fun s a s' hi he hlt => (hi ((calls_mono he).trans_lt hlt)).step hlt he) h hlt
  intro s hs _
  obtain ⟨heap, call, rfl⟩ := hs
  refine ⟨rfl, ?_, ?_, ?_, ?_, ?_, fun c => ?_, ?_, ?_, ?_, ?_, ?_, ?_, ?_, ?_, ?_⟩
  case refine_6 =>
    have hz : atPlaces (has c) (fun _ : Fin n => Pc.idle) = 0 := atPlaces_zero.2 fun _ => rfl
    simp [places, hz]
  all_goals simp [Done]

end P1Server.IocpTest
