import P1Server.AsynLog

/-!
# `Log` and `traceLog`: one calls the other

| here | there |
| --- | --- |
| `getTimeStr`  | `GetTimeStr` (`IOCP_Test/common.hpp:59-66`) |
| `log`         | `Log` (`IOCP_Test/AsynLog.cpp:5-29`), from the formatted message on; no fuel, no result |
| `traceLog`    | `AsynLog::traceLog` (`:79-96`); `again` is the `Log` that it calls |
| `Meets`       | what a nested call meets: the clock, `g_LogHandler`, the answer of `WriteFile` |
| `opened`      | `fileHandle != INVALID_HANDLE_VALUE`: `WriteFile` on that value fails with 6, `ERROR_INVALID_HANDLE` |

A `new` that fails and the end of the stack are not here.

* `log_step` — a call returns at once, or its failed write logs again;
* **`log_returns_iff`** — a call returns when and only when one of the nested calls meets no handler, or a write that
  succeeds or is pending.
-/

namespace P1Server.AsynLog
open Lib

def ascii (s : String) : List UInt8 := s.toList.map fun c => UInt8.ofNat c.toNat

structure Tm where
  tm_year : Int
  tm_mon : Int
  tm_mday : Int
  tm_hour : Int
  tm_min : Int
  tm_sec : Int

def getTimeStr (t : Tm) : List UInt8 :=
  ascii (toString (t.tm_year + 1900) ++ "-" ++ toString (t.tm_mon + 1) ++ "-" ++ toString t.tm_mday ++ " " ++
    toString t.tm_hour ++ ":" ++ toString t.tm_min ++ ":" ++ toString t.tm_sec ++ " ")

def ERROR_IO_PENDING : UInt32 := 997

/-- The result of `WriteFile`, with `GetLastError()` where it is `FALSE`. -/
inductive Written
  | done
  | failed (ec : UInt32)
  deriving DecidableEq

structure Meets where
  tm : Tm
  /-- `g_LogHandler != NULL`. -/
  handler : Bool
  written : Written

def writeFile (opened : Bool) (r : Written) : Written := if opened then r else .failed 6

/-- `logSize`, what `WriteFile` was asked to write and what went to `cout`. -/
structure Sink where
  logSize : UInt64
  writes : List (Region × List UInt8)
  printed : List (List UInt8)

/-- `InterlockedExchangeAdd64` and `WriteFile`, at the size read before. -/
def Sink.write (s : Sink) (data : List UInt8) : Sink :=
  let length := strlen data
  { s with
    logSize := s.logSize + UInt64.ofNat length
    writes := s.writes ++ [(region length (overlapped s.logSize), data.take length)] }

/-- `"Log Data Error: ec = %d, data = %s"`. -/
def errorText (ec : UInt32) (data : List UInt8) : List UInt8 :=
  ascii "Log Data Error: ec = " ++ ascii (toString ec.toInt32.toInt) ++ ascii ", data = " ++ data.takeWhile (· != 0)

variable (opened : Bool)

/-- The answer of `traceLog`, and what it leaves. -/
def traceLog (again : List UInt8 → Sink → Option Sink) (r : Written) (data : List UInt8) (s : Sink) :
    Option (Bool × Sink) :=
  if 0 < strlen data then
    match writeFile opened r with
    | .done => some (true, s.write data)
    | .failed ec =>
      if ec ≠ ERROR_IO_PENDING then (again (errorText ec data) (s.write data)).map fun s => (false, s)
      else some (true, s.write data)
  else some (true, s)

/-- The call that meets `w i`. -/
def log (w : Nat → Meets) : Nat → Nat → List UInt8 → Sink → Option Sink
  | 0, _, _, _ => none
  | fuel + 1, i, text, s =>
    let pBuffer := getTimeStr (w i).tm ++ text
    if (w i).handler then (traceLog opened (log w fuel (i + 1)) (w i).written pBuffer s).map Prod.snd
    else some { s with printed := s.printed ++ [pBuffer] }

/-- A call of `Log` returns. -/
def Returns (w : Nat → Meets) (text : List UInt8) (s : Sink) : Prop := ∃ fuel, (log opened w fuel 0 text s).isSome

/-- The nested call is the last: there is no handler, or the write succeeds or is pending. -/
def Meets.Ends (m : Meets) : Prop :=
  m.handler = false ∨ (opened = true ∧ (m.written = .done ∨ m.written = .failed ERROR_IO_PENDING))

/-! ## The text is never empty -/

theorem strlen_pos {c : UInt8} {cs : List UInt8} (h : c ≠ 0) : 0 < strlen (c :: cs) := by
  simp [strlen, h]

theorem ascii_append (a b : String) : ascii (a ++ b) = ascii a ++ ascii b := by
  simp [ascii]

theorem digit_ne_zero {c : Char} (h : c.isDigit) : UInt8.ofNat c.toNat ≠ 0 := by
  have hd : 48 ≤ c.toNat ∧ c.toNat ≤ 57 := Char.isDigit_iff_toNat.1 h
  intro h0
  have hn := congrArg UInt8.toNat h0
  rw [UInt8.toNat_ofNat', UInt8.toNat_zero] at hn
  omega

/-- A number starts with a digit or a sign. -/
theorem ascii_toString (n : Int) : ∃ c cs, ascii (toString n) = c :: cs ∧ c ≠ 0 := by
  cases n with
  | ofNat m =>
    have hm : ascii (toString (Int.ofNat m)) = (Nat.toDigits 10 m).map fun c => UInt8.ofNat c.toNat := by
      rw [← Nat.toList_repr]
      rfl
    rcases hd : Nat.toDigits 10 m with _ | ⟨c, cs⟩
    · exact absurd hd Nat.toDigits_ne_nil
    have hc : c.isDigit := Nat.isDigit_of_mem_toDigits (by omega) le_rfl (hd ▸ List.mem_cons_self)
    exact ⟨_, _, by rw [hm, hd]; rfl, digit_ne_zero hc⟩
  | negSucc m => exact ⟨45, ascii (Nat.repr (m + 1)), ascii_append "-" _, by decide⟩

theorem strlen_timeStr (t : Tm) (text : List UInt8) : 0 < strlen (getTimeStr t ++ text) := by
  obtain ⟨c, cs, hc, h0⟩ := ascii_toString (t.tm_year + 1900)
  simp only [getTimeStr, ascii_append, hc, List.append_assoc, List.cons_append]
  exact strlen_pos h0

/-! ## Which calls return -/

variable {opened} {w : Nat → Meets} {fuel i : Nat} {text : List UInt8} {s : Sink}

/-- A call returns at once, or its failed write logs again. -/
theorem log_step (opened : Bool) (w : Nat → Meets) (i : Nat) (text : List UInt8) (s : Sink) :
    ((w i).Ends opened ∧ ∀ fuel, (log opened w (fuel + 1) i text s).isSome) ∨
      (¬ (w i).Ends opened ∧ ∃ text' s', ∀ fuel,
        (log opened w (fuel + 1) i text s).isSome = (log opened w fuel (i + 1) text' s').isSome) := by
  cases hh : (w i).handler with
  | false => exact .inl ⟨.inl hh, fun fuel => by rw [log, hh]; rfl⟩
  | true =>
    have hpos := strlen_timeStr (w i).tm text
    let pBuffer := getTimeStr (w i).tm ++ text
    have hagain : ∀ ec, writeFile opened (w i).written = .failed ec → ec ≠ ERROR_IO_PENDING → ∀ fuel,
        (log opened w (fuel + 1) i text s).isSome =
          (log opened w fuel (i + 1) (errorText ec pBuffer) (s.write pBuffer)).isSome := by
      intro ec hw hec fuel
      simp only [log, hh, if_true, traceLog, hpos, hw, if_pos hec, Option.isSome_map, pBuffer]
    cases opened with
    | false =>
      -- the file was never opened
      exact .inr ⟨by simp [Meets.Ends, hh], _, _, hagain 6 rfl (by decide)⟩
    | true =>
      cases hw : (w i).written with
      | done => exact .inl ⟨.inr ⟨rfl, .inl hw⟩, fun fuel => by simp [log, hh, traceLog, hpos, writeFile, hw]⟩
      | failed ec =>
        by_cases hec : ec = ERROR_IO_PENDING
        · subst hec
          exact .inl ⟨.inr ⟨rfl, .inr hw⟩, fun fuel => by simp [log, hh, traceLog, hpos, writeFile, hw]⟩
        · exact .inr ⟨by simp [Meets.Ends, hh, hw, hec], _, _, hagain ec (by rw [writeFile, hw]; rfl) hec⟩

/-- A call that returns has a nested one, or itself, that ends it. -/
theorem ends_of_log (h : (log opened w fuel i text s).isSome) : ∃ j, (w j).Ends opened := by
  induction fuel generalizing i text s with
  | zero => cases h
  | succ fuel ih =>
    rcases log_step opened w i text s with ⟨hends, -⟩ | ⟨-, text', s', heq⟩
    · exact ⟨i, hends⟩
    · exact ih (heq fuel ▸ h)

/-- It takes one call for each write up to the one that ends it. -/
theorem log_of_ends {k : Nat} (h : (w (i + k)).Ends opened) : (log opened w (k + 1) i text s).isSome := by
  induction k generalizing i text s with
  | zero =>
    rcases log_step opened w i text s with ⟨-, hlog⟩ | ⟨hnot, -⟩
    · exact hlog 0
    · exact absurd h hnot
  | succ k ih =>
    rcases log_step opened w i text s with ⟨-, hlog⟩ | ⟨-, text', s', heq⟩
    · exact hlog (k + 1)
    · rw [heq]
      exact ih (by rwa [Nat.add_right_comm])

/-- **A call of `Log` returns** when and only when one of the nested calls meets no handler, or a write that succeeds or
is pending. -/
theorem log_returns_iff (opened : Bool) (w : Nat → Meets) (text : List UInt8) (s : Sink) :
    Returns opened w text s ↔ ∃ i, (w i).Ends opened := by
  constructor
  · rintro ⟨fuel, h⟩
    exact ends_of_log h
  · rintro ⟨i, h⟩
    exact ⟨i + 1, log_of_ends (by rwa [Nat.zero_add])⟩

/-- With a handler whose file was never opened, no call returns. -/
theorem log_never_returns :
    ¬ ∀ (opened : Bool) (w : Nat → Meets) (text : List UInt8) (s : Sink), Returns opened w text s := by
  intro h
  let m : Meets := ⟨⟨119, 0, 1, 12, 0, 0⟩, true, .done⟩
  obtain ⟨fuel, hlog⟩ := h false (fun _ => m) (ascii "text") ⟨0, [], []⟩
  obtain ⟨i, hno | ⟨hok, -⟩⟩ := ends_of_log hlog
  · cases hno
  · cases hok

end P1Server.AsynLog
