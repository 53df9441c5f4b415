import P1Server.Lib.Scan
import P1Server.Lib.Stream
import Mathlib.Data.UInt

/-!
# `BoostHttpClient`: what comes of a response

| here | there |
| --- | --- |
| `IStream`                        | `response_stream`, on what `response` has: a `streambuf` gives no more |
| `extractWord`, `extractUnsigned` | `>> http_version`, `>> status_code`; a stream that has failed or ended fails |
| `getline`, `headerLines`         | `std::getline`, and the loop over the headers (`P1/BoostHttpClient.hpp:74-75`) |
| `http`                           | `http` from the first `read_until` on (`:48-95`) |

The pieces are what the calls of `read_some` give one after the other, and `ec` the error they end with. `readUntil` is
`boost::asio::read_until`, of which `ReadsUntil` is expected; `what` is the text of an exception: `read_until` throws
its own, `http` one for an error other than `eof`.

* `status_append`, `headerLines_append` — where the line, the blank line is in the buffer, what is behind it does not
  matter;
* **`http_pieces`** — it does not matter where the response is cut, if its first line has two words and the pieces end
  with the same error;
* **`http_prints`** — the headers, a blank line and the content; where there is no header, an exception instead.
-/

namespace P1Server.BoostHttp
open Lib

structure IStream where
  buf : List Char
  eof : Bool
  fail : Bool
  deriving DecidableEq

namespace IStream

/-- What the sentry of an extraction looks at. -/
def good (s : IStream) : Bool := !s.eof && !s.fail

def extractWord (s : IStream) : List Char × IStream :=
  if s.good then
    let b := s.buf.dropWhile isspace
    let word := b.takeWhile (! isspace ·)
    let rest := b.dropWhile (! isspace ·)
    (word, ⟨rest, rest.isEmpty, word.isEmpty⟩)
  else ([], { s with fail := true })

/-- The sign, and what is behind it. -/
def sign : List Char → Bool × List Char
  | '-' :: cs => (true, cs)
  | '+' :: cs => (false, cs)
  | cs => (false, cs)

/-- What an `unsigned int` becomes; a number too large gives the largest one. -/
def unsigned (neg : Bool) (n : Nat) : UInt32 := if n < 2 ^ 32 then (if neg then -.ofNat n else .ofNat n) else -1

/-- It fails without digits, and where the number is too large. -/
def extractUnsigned (s : IStream) : UInt32 × IStream :=
  if s.good then
    let (neg, b) := sign (s.buf.dropWhile isspace)
    let rest := b.dropWhile Char.isDigit
    (unsigned neg (digits b),
      ⟨rest, rest.isEmpty, (b.takeWhile Char.isDigit).isEmpty || decide (2 ^ 32 ≤ digits b)⟩)
  else (0, { s with fail := true })

def getline (s : IStream) : List Char × IStream :=
  if s.good then
    let line := s.buf.takeWhile (· ≠ '\n')
    match s.buf.dropWhile (· ≠ '\n') with
    | _ :: rest => (line, { s with buf := rest })
    | [] => (line, ⟨[], true, line.isEmpty⟩)
  else ([], { s with fail := true })

theorem getline_length {s : IStream} (h : s.getline.2.fail = false) : s.getline.2.buf.length < s.buf.length := by
  have hlen := congrArg List.length
    (List.takeWhile_append_dropWhile (p := fun c : Char => decide (c ≠ '\n')) (l := s.buf))
  rw [List.length_append] at hlen
  unfold getline at h ⊢
  split at h
  case isFalse => cases h
  case isTrue hg =>
    simp only [hg, if_true]
    split
    case h_1 _ rest hr =>
      rw [hr] at hlen
      simp at hlen ⊢
      omega
    case h_2 hr =>
      rw [hr] at hlen h
      simp only [List.length_nil]
      rcases hb : s.buf with _ | ⟨c, b⟩
      · simp [hb] at h
      · simp

/-- The loop over the headers: what it prints. -/
def headerLines (s : IStream) : List Char × IStream :=
  let r := s.getline
  if _ : r.2.fail = true ∨ r.1 = ['\r'] then ([], r.2)
  else
    let t := headerLines r.2
    (r.1 ++ '\n' :: t.1, t.2)
termination_by s.buf.length
decreasing_by exact getline_length (Bool.eq_false_iff.2 (not_or.1 ‹¬ _›).1)

end IStream

inductive ErrorCode
  | eof
  | other (value : Int)
  deriving DecidableEq

inductive Thrown
  | readUntil (ec : ErrorCode)
  | systemError (ec : ErrorCode)

def crlf : List Char := ['\r', '\n']

def blank : List Char := ['\r', '\n', '\r', '\n']

section
variable (readUntil : Reader Char) (what : Thrown → String)

def exception (e : Thrown) : List Char := "Exception: ".toList ++ (what e).toList ++ ['\n']

/-- The end of `http`: what is thrown where the reads did not end with `eof`. -/
def closing (ec : ErrorCode) : List Char := if ec = .eof then [] else exception what (.systemError ec)

/-- The status line. -/
def status (b : List Char) : List Char × UInt32 × IStream :=
  let version := IStream.extractWord ⟨b, false, false⟩
  let code := version.2.extractUnsigned
  (version.1, code.1, code.2.getline.2)

/-- What `http` prints, from the response on. -/
def http (pieces : List (List Char)) (ec : ErrorCode) : List Char :=
  match readUntil crlf [] pieces with
  | none => exception what (.readUntil ec)
  | some (b, pieces) =>
    let (version, code, s) := status b
    if s.fail ∨ version.take 5 ≠ "HTTP/".toList then "Invalid response\n".toList
    else if code ≠ 200 then "Response returned with status code ".toList ++ (toString code.toNat).toList ++ ['\n']
    else
      match readUntil blank s.buf pieces with
      | none => exception what (.readUntil ec)
      | some (b, pieces) =>
        let r := IStream.headerLines { s with buf := b }
        r.1 ++ '\n' :: (r.2.buf ++ pieces.flatten) ++ closing what ec

end

/-! ## What ends within the buffer -/

namespace IStream

theorem getline_line {p : List Char} (hp : '\n' ∉ p) (q : List Char) :
    getline ⟨p ++ '\n' :: q, false, false⟩ = (p, ⟨q, false, false⟩) := by
  have hall : ∀ c ∈ p, decide (c ≠ '\n') = true := fun c hc => decide_eq_true fun he => hp (he ▸ hc)
  have ht : (p ++ '\n' :: q).takeWhile (· ≠ '\n') = p := by
    rw [List.takeWhile_append_of_pos hall, List.takeWhile_cons_of_neg (by decide), List.append_nil]
  have hd : (p ++ '\n' :: q).dropWhile (· ≠ '\n') = '\n' :: q := by
    rw [List.dropWhile_append_of_pos hall, List.dropWhile_cons_of_neg (by decide)]
  unfold getline
  rw [hd, ht]
  rfl

/-- A line of the headers. -/
theorem headerLines_line {p : List Char} (hp : '\n' ∉ p) (q : List Char) :
    headerLines ⟨p ++ '\n' :: q, false, false⟩ =
      if p = ['\r'] then ([], ⟨q, false, false⟩)
      else (p ++ '\n' :: (headerLines ⟨q, false, false⟩).1, (headerLines ⟨q, false, false⟩).2) := by
  rw [headerLines, getline_line hp]
  simp

/-- With a blank line in the buffer, the loop stops in what is before its end. -/
theorem headerLines_append (m : List Char) :
    ∃ hs z, ∀ x, headerLines ⟨m ++ blank ++ x, false, false⟩ = (hs, ⟨z ++ x, false, false⟩) := by
  induction hn : m.length using Nat.strongRecOn generalizing m with
  | ind n ih =>
    by_cases hm : '\n' ∈ m
    · obtain ⟨p, q, rfl, hp⟩ := List.eq_append_cons_of_mem hm
      obtain ⟨hs, z, h⟩ := ih q.length (by simp [← hn]; omega) q rfl
      have hline := fun x => headerLines_line hp (q ++ blank ++ x)
      by_cases hr : p = ['\r']
      · refine ⟨[], q ++ blank, fun x => ?_⟩
        have := hline x
        rw [if_pos hr] at this
        simpa using this
      · refine ⟨p ++ '\n' :: hs, z, fun x => ?_⟩
        have := hline x
        rw [if_neg hr, h] at this
        simpa using this
    · have hr : '\n' ∉ m ++ ['\r'] := by simpa using hm
      have hline := fun x => headerLines_line hr ('\r' :: '\n' :: x)
      have hlast := fun x => headerLines_line (p := ['\r']) (by decide) x
      cases m with
      | nil => exact ⟨[], ['\r', '\n'], fun x => hline x⟩
      | cons c m =>
        refine ⟨(c :: m ++ ['\r']) ++ ['\n'], [], fun x => ?_⟩
        have hl := hline x
        have hstop := hlast x
        rw [if_pos rfl] at hstop
        rw [if_neg (by simp)] at hl
        simp only [List.singleton_append] at hstop
        rw [hstop] at hl
        simpa [blank] using hl

theorem getline_append (z : List Char) (f : Bool) :
    ∃ l y f', ∀ x, getline ⟨z ++ crlf ++ x, false, f⟩ = (l, ⟨y ++ x, false, f'⟩) := by
  cases f with
  | true => exact ⟨[], z ++ crlf, true, fun x => rfl⟩
  | false =>
    obtain ⟨p, q, he, hp⟩ := List.eq_append_cons_of_mem (show '\n' ∈ z ++ crlf by simp [crlf])
    refine ⟨p, q, false, fun x => ?_⟩
    rw [he]
    simpa using getline_line hp (q ++ x)

theorem extractWord_append {b : List Char} (h : (b.dropWhile isspace).dropWhile (! isspace ·) ≠ []) (x : List Char) :
    extractWord ⟨b ++ x, false, false⟩ =
      ((b.dropWhile isspace).takeWhile (! isspace ·),
        ⟨(b.dropWhile isspace).dropWhile (! isspace ·) ++ x, false,
          ((b.dropWhile isspace).takeWhile (! isspace ·)).isEmpty⟩) := by
  have hb : b.dropWhile isspace ≠ [] := fun he => h (by rw [he]; rfl)
  have hsp := (takeWhile_within hb x).2
  obtain ⟨hword, hrest⟩ := takeWhile_within h x
  simp [extractWord, good, hsp, hword, hrest, h]

theorem sign_append {b : List Char} (h : b ≠ []) (x : List Char) : sign (b ++ x) = ((sign b).1, (sign b).2 ++ x) := by
  obtain ⟨c, b, rfl⟩ := List.exists_cons_of_ne_nil h
  unfold sign
  split <;> simp_all

theorem extractUnsigned_append {b : List Char} (h : b.dropWhile isspace ≠ []) (f : Bool) :
    ∃ v z f', ∀ x, extractUnsigned ⟨b ++ crlf ++ x, false, f⟩ = (v, ⟨z ++ crlf ++ x, false, f'⟩) := by
  cases f with
  | true => exact ⟨0, b, true, fun x => rfl⟩
  | false =>
    obtain ⟨neg, u, hu⟩ : ∃ neg u, sign (b.dropWhile isspace) = (neg, u) := ⟨_, _, rfl⟩
    refine ⟨unsigned neg (digits u), u.dropWhile Char.isDigit,
      (u.takeWhile Char.isDigit).isEmpty || decide (2 ^ 32 ≤ digits u), fun x => ?_⟩
    have hsp := (takeWhile_within h ('\r' :: '\n' :: x)).2
    have hsign := sign_append h ('\r' :: '\n' :: x)
    rw [hu] at hsign
    obtain ⟨ht, hd⟩ := takeWhile_stop (p := Char.isDigit) (z := '\r') (by decide) u ('\n' :: x)
    simp [extractUnsigned, good, crlf, hsp, hsign, digits_stop, ht, hd]

end IStream

/-- Behind its first word the line has another one. -/
def TwoWords (line : List Char) : Prop :=
  (((line.dropWhile isspace).dropWhile (! isspace ·)).dropWhile isspace) ≠ []

instance (line : List Char) : Decidable (TwoWords line) :=
  inferInstanceAs (Decidable (¬ _ = _))

/-- The words are found in the line, and the rest of it. -/
theorem status_append {line : List Char} (h : TwoWords line) :
    ∃ v c y f, ∀ x, status (line ++ crlf ++ x) = (v, c, ⟨y ++ x, false, f⟩) := by
  have hword : (line.dropWhile isspace).dropWhile (! isspace ·) ≠ [] := fun he => h (by rw [he]; rfl)
  obtain ⟨c, z, f, hcode⟩ := IStream.extractUnsigned_append h
    (((line.dropWhile isspace).takeWhile (! isspace ·)).isEmpty)
  obtain ⟨l, y, f', hline⟩ := IStream.getline_append z f
  refine ⟨(line.dropWhile isspace).takeWhile (! isspace ·), c, y, f', fun x => ?_⟩
  rw [status, List.append_assoc, IStream.extractWord_append hword, ← List.append_assoc, hcode, hline]

/-! ## The whole response -/

section
variable {readUntil : Reader Char} (what : Thrown → String)

/-- What is printed once the status line has been found good, of what is behind it. -/
def content (t : List Char) (ec : ErrorCode) : List Char :=
  if blank <:+: t then
    let r := IStream.headerLines ⟨t, false, false⟩
    r.1 ++ '\n' :: r.2.buf ++ closing what ec
  else exception what (.readUntil ec)

theorem content_eq (hread : ReadsUntil readUntil) {b : List Char} {pieces : List (List Char)} {ec : ErrorCode} :
    (match readUntil blank b pieces with
      | none => exception what (.readUntil ec)
      | some (b, pieces) =>
        let r := IStream.headerLines ⟨b, false, false⟩
        r.1 ++ '\n' :: (r.2.buf ++ pieces.flatten) ++ closing what ec) = content what (b ++ pieces.flatten) ec := by
  rw [content]
  cases hr : readUntil blank b pieces with
  | none => rw [if_neg (hread.fails hr)]
  | some r =>
    obtain ⟨hd, hf⟩ := hread.found hr
    have hd' : blank <:+: b ++ pieces.flatten := hf ▸ hd.trans (List.prefix_append _ _).isInfix
    obtain ⟨l, after, hfirst⟩ := firstAt_of_infix hd'
    obtain ⟨x, hx, hafter⟩ := hfirst.prefix hd hf
    obtain ⟨hs, z, hlines⟩ := IStream.headerLines_append l
    rw [if_pos hd']
    simp only [hfirst.eq, hx, hlines, ← hafter]
    simp

theorem http_eq (hread : ReadsUntil readUntil) {r line after v y : List Char} {c : UInt32} {f : Bool} {pieces : List (List Char)} {ec : ErrorCode}
    (hf : FirstAt crlf r line after) (hst : ∀ x, status (line ++ crlf ++ x) = (v, c, ⟨y ++ x, false, f⟩))
    (hp : pieces.flatten = r) : http readUntil what pieces ec =
      if f ∨ v.take 5 ≠ "HTTP/".toList then "Invalid response\n".toList
      else if c ≠ 200 then "Response returned with status code ".toList ++ (toString c.toNat).toList ++ ['\n']
      else content what (y ++ after) ec := by
  rw [http]
  cases hr : readUntil crlf [] pieces with
  | none =>
    refine absurd ?_ (hread.fails hr)
    rw [List.nil_append, hp, hf.eq]
    exact ⟨line, after, rfl⟩
  | some s =>
    obtain ⟨hd, hflat⟩ := hread.found hr
    obtain ⟨x, hx, hafter⟩ := hf.prefix hd (hflat.trans hp)
    simp only [hx, hst, ← hafter]
    cases f with
    | true => simp
    | false =>
      rw [← List.append_assoc y x, ← content_eq what hread]

/-- **Where the response is cut does not matter**, if its first line has two words and the reads end with one error. -/
theorem http_pieces (hread : ReadsUntil readUntil) {r : List Char}
    (hw : ∀ line after, FirstAt crlf r line after → TwoWords line)
    {pieces : List (List Char)} (hp : pieces.flatten = r) (ec : ErrorCode) :
    http readUntil what pieces ec = http readUntil what [r] ec := by
  by_cases hd : crlf <:+: r
  · obtain ⟨line, after, hf⟩ := firstAt_of_infix hd
    obtain ⟨v, c, y, f, hst⟩ := status_append (hw line after hf)
    rw [http_eq what hread hf hst hp, http_eq what hread hf hst (by simp)]
  · have hnone : ∀ ps : List (List Char), ps.flatten = r → readUntil crlf [] ps = none := fun ps hps =>
      hread.eq_none.2 (by rwa [List.nil_append, hps])
    rw [http, http, hnone pieces hp, hnone [r] (by simp)]

/-- A response with status 200: the rest of the status line, the headers and the content. -/
def response (version rest : List Char) (headers : List (List Char)) (body : List Char) : List Char :=
  version ++ ' ' :: '2' :: '0' :: '0' :: rest ++ crlf ++ headers.flatMap (· ++ crlf) ++ crlf ++ body

structure WellFormed (version rest : List Char) (headers : List (List Char)) : Prop where
  http : version.take 5 = "HTTP/".toList
  word : ∀ c ∈ version, isspace c = false
  number : ∀ c ∈ rest.head?, c.isDigit = false
  line : '\n' ∉ rest
  fields : ∀ g ∈ headers, g ≠ [] ∧ '\n' ∉ g

theorem WellFormed.status {version rest : List Char} {headers : List (List Char)}
    (h : WellFormed version rest headers) (x : List Char) :
    status (version ++ ' ' :: '2' :: '0' :: '0' :: rest ++ crlf ++ x) = (version, 200, ⟨x, false, false⟩) := by
  obtain ⟨c, v, hv⟩ : ∃ c v, version = c :: v := by
    apply List.exists_cons_of_ne_nil
    rintro rfl
    exact absurd h.http (by decide)
  have hc : isspace c = false := h.word c (by simp [hv])
  have hsp : (version ++ ' ' :: '2' :: '0' :: '0' :: rest ++ crlf ++ x).dropWhile isspace =
      version ++ ' ' :: '2' :: '0' :: '0' :: (rest ++ crlf ++ x) := by simp [hv, hc]
  have hall : ∀ c ∈ version, (! isspace c) = true := fun c hc => by simp [h.word c hc]
  have hword : (version ++ ' ' :: '2' :: '0' :: '0' :: (rest ++ crlf ++ x)).takeWhile (! isspace ·) = version := by
    rw [List.takeWhile_append_of_pos hall, List.takeWhile_cons_of_neg (by decide), List.append_nil]
  have htail : (version ++ ' ' :: '2' :: '0' :: '0' :: (rest ++ crlf ++ x)).dropWhile (! isspace ·) =
      ' ' :: '2' :: '0' :: '0' :: (rest ++ crlf ++ x) := by
    rw [List.dropWhile_append_of_pos hall, List.dropWhile_cons_of_neg (by decide)]
  have hextract : IStream.extractWord ⟨version ++ ' ' :: '2' :: '0' :: '0' :: rest ++ crlf ++ x, false, false⟩ =
      (version, ⟨' ' :: '2' :: '0' :: '0' :: (rest ++ crlf ++ x), false, false⟩) := by
    simp only [IStream.extractWord, IStream.good, hsp, hword, htail]
    simp [hv]
  -- the number ends with its third digit
  have hstop : (rest ++ crlf ++ x).takeWhile Char.isDigit = [] ∧
      (rest ++ crlf ++ x).dropWhile Char.isDigit = rest ++ crlf ++ x := by
    cases hr : rest with
    | nil => exact ⟨rfl, rfl⟩
    | cons d rest =>
      have hd : d.isDigit = false := h.number d (by simp [hr])
      simp [hd]
  have hcode : IStream.extractUnsigned ⟨' ' :: '2' :: '0' :: '0' :: (rest ++ crlf ++ x), false, false⟩ =
      (200, ⟨rest ++ crlf ++ x, false, false⟩) := by
    have hspace : (' ' :: '2' :: '0' :: '0' :: (rest ++ crlf ++ x)).dropWhile isspace =
        '2' :: '0' :: '0' :: (rest ++ crlf ++ x) := rfl
    have hsign : IStream.sign ('2' :: '0' :: '0' :: (rest ++ crlf ++ x)) =
        (false, '2' :: '0' :: '0' :: (rest ++ crlf ++ x)) := rfl
    have htake : ('2' :: '0' :: '0' :: (rest ++ crlf ++ x)).takeWhile Char.isDigit = ['2', '0', '0'] := by
      iterate 3 rw [List.takeWhile_cons_of_pos (by decide)]
      rw [hstop.1]
    have hdrop : ('2' :: '0' :: '0' :: (rest ++ crlf ++ x)).dropWhile Char.isDigit = rest ++ crlf ++ x := by
      iterate 3 rw [List.dropWhile_cons_of_pos (by decide)]
      rw [hstop.2]
    have hdigits : digits ('2' :: '0' :: '0' :: (rest ++ crlf ++ x)) = 200 := by
      rw [digits, htake]
      rfl
    simp only [IStream.extractUnsigned, IStream.good, hspace, hsign, htake, hdrop, hdigits]
    simp [IStream.unsigned, crlf]
  have hline : IStream.getline ⟨rest ++ crlf ++ x, false, false⟩ = (rest ++ ['\r'], ⟨x, false, false⟩) := by
    simpa [crlf] using IStream.getline_line (p := rest ++ ['\r']) (by simpa using h.line) x
  rw [BoostHttp.status, hextract, hcode, hline]

theorem WellFormed.firstAt {version rest : List Char} {headers : List (List Char)}
    (h : WellFormed version rest headers) (after : List Char) :
    FirstAt crlf (version ++ ' ' :: '2' :: '0' :: '0' :: rest ++ crlf ++ after)
      (version ++ ' ' :: '2' :: '0' :: '0' :: rest) after := by
  refine ⟨rfl, ?_⟩
  intro p q he
  by_contra hlt
  have hno : '\n' ∉ version ++ ' ' :: '2' :: '0' :: '0' :: rest ++ ['\r'] := by
    have hv : '\n' ∉ version := fun hm => absurd (h.word _ hm) (by decide)
    simp [hv, h.line]
  have hp : p ++ crlf <+: p ++ crlf ++ q := List.prefix_append _ _
  have hpre : p ++ crlf <+: version ++ ' ' :: '2' :: '0' :: '0' :: rest ++ ['\r'] := by
    refine List.prefix_of_prefix_length_le hp ?_ ?_
    · rw [← he]
      exact ⟨'\n' :: after, by simp [crlf]⟩
    · simp [crlf] at hlt ⊢
      omega
  exact hno (hpre.subset (by simp [crlf]))

theorem headerLines_headers {headers : List (List Char)} (h : ∀ h ∈ headers, h ≠ [] ∧ '\n' ∉ h) (body : List Char) :
    IStream.headerLines ⟨headers.flatMap (· ++ crlf) ++ crlf ++ body, false, false⟩ =
      (headers.flatMap (· ++ crlf), ⟨body, false, false⟩) := by
  induction headers with
  | nil =>
    have hl := IStream.headerLines_line (p := ['\r']) (by decide) body
    rw [if_pos rfl] at hl
    simpa [crlf] using hl
  | cons g headers ih =>
    obtain ⟨hne, hn⟩ := h g List.mem_cons_self
    have hl := IStream.headerLines_line (p := g ++ ['\r']) (by simpa using hn)
      (headers.flatMap (· ++ crlf) ++ crlf ++ body)
    rw [if_neg (by simpa using hne), ih fun k hk => h k (List.mem_cons_of_mem _ hk)] at hl
    simpa [crlf] using hl

/-- **What is printed of a response** that is well formed, however it is cut: its headers, a blank line and its
content. Without a header the blank line is not found, and an exception is printed instead, unless the content has
one. -/
theorem http_prints (hread : ReadsUntil readUntil) {version rest : List Char} {headers : List (List Char)} (h : WellFormed version rest headers)
    {body : List Char} {pieces : List (List Char)} (hp : pieces.flatten = response version rest headers body)
    (ec : ErrorCode) : http readUntil what pieces ec =
      if headers = [] ∧ ¬ blank <:+: crlf ++ body then exception what (.readUntil ec)
      else headers.flatMap (· ++ crlf) ++ '\n' :: body ++ closing what ec := by
  have hp' : pieces.flatten = version ++ ' ' :: '2' :: '0' :: '0' :: rest ++ crlf ++
      (headers.flatMap (· ++ crlf) ++ crlf ++ body) := by simp [hp, response]
  rw [http_eq what hread (h.firstAt _) (y := []) h.status hp', if_neg (by simp [h.http]), if_neg (by simp),
    List.nil_append, content, headerLines_headers h.fields]
  -- the last header ends with half of the delimiter
  have hblank : blank <:+: headers.flatMap (· ++ crlf) ++ crlf ++ body ↔
      ¬ (headers = [] ∧ ¬ blank <:+: crlf ++ body) := by
    rcases headers.eq_nil_or_concat' with rfl | ⟨gs, g, rfl⟩
    · simp
    · exact iff_of_true ⟨gs.flatMap (· ++ crlf) ++ g, body, by simp [blank, crlf]⟩ (by simp)
  simp only [hblank, ite_not]

end

theorem wellFormed_ok : WellFormed "HTTP/1.0".toList " OK".toList ["A: b".toList] where
  http := by decide
  word := by simp [isspace]
  number := by simp
  line := by decide
  fields := by simp

theorem http_prints_ok : http fillUntil (fun _ => "") ["HTTP/1.0 200 OK\r".toList, "\nA: b\r\n\r".toList, "\nhi".toList] .eof =
    "A: b\r\n\nhi".toList := by
  have hp : ["HTTP/1.0 200 OK\r".toList, "\nA: b\r\n\r".toList, "\nhi".toList].flatten =
      response "HTTP/1.0".toList " OK".toList ["A: b".toList] "hi".toList := by decide
  rw [http_prints (fun _ => "") readsUntil_fillUntil wellFormed_ok hp .eof]
  decide

theorem http_pieces_ok : http fillUntil (fun _ => "") ["HTTP/1.0 200 OK\r".toList, "\nA: b\r\n\r\nhi".toList] .eof =
    http fillUntil (fun _ => "") ["HTTP/1.0 200 OK\r\nA: b\r\n\r\nhi".toList] .eof := by
  refine http_pieces (fun _ => "") readsUntil_fillUntil ?_ (by decide) .eof
  intro line after hf
  have hfirst := wellFormed_ok.firstAt "A: b\r\n\r\nhi".toList
  obtain rfl := hf.unique hfirst
  decide

-- the first line has one word: the status code is looked for in what has come of the second one
example : http fillUntil (fun _ => "") ["HTTP/1.0\r\n".toList, "404 \r\n".toList] .eof ≠
    http fillUntil (fun _ => "") ["HTTP/1.0\r\n404 \r\n".toList] .eof := by decide

end P1Server.BoostHttp
