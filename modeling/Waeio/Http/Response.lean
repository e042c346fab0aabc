import Mathlib.Algebra.Group.Int.Defs
import Mathlib.Data.List.TakeWhile
import Mathlib.Order.MinMax
import Mathlib.Tactic.SplitIfs
import Waeio.Lib.Uint32

/-!
# Building a response

`examples/httpserver/http_utils.h`: a response is put together in a buffer by one
`snprintf` after the other, each at the length so far. The length is a `uint32_t`,
and what is left of the buffer is computed in it as well.

The text `snprintf` is to print is formed first (`Waeio.Http.pieces`), and what it
writes of it is `Waeio.Http.snprintf`. Of a string it prints what comes before the first
`NUL`, and `(null)` for a pointer that is `NULL`, as the C library of the build does: the
body is printed whenever the content length is not zero, without a look at the pointer
(`Waeio.Http.percentS`). What `gmtime(time(NULL))` returns is an argument.
-/

namespace Waeio

namespace Http

/-- The bytes of a text. -/
def bytes (text : String) : List UInt8 := text.toList.map fun c => UInt8.ofNat c.toNat

/-- The parts of `struct tm` that are printed. -/
structure Tm where
  /-- `tm_wday`, the days since Sunday. -/
  wday : ℕ
  /-- `tm_mday`, the day of the month. -/
  mday : ℕ
  /-- `tm_mon`, the months since January. -/
  mon : ℕ
  /-- `tm_year`, the years since 1900. -/
  year : ℤ
  /-- `tm_hour` -/
  hour : ℕ
  /-- `tm_min` -/
  min : ℕ
  /-- `tm_sec` -/
  sec : ℕ
  deriving DecidableEq, Repr

/-- `daysOfWeek` -/
def daysOfWeek : List String := ["Sun", "Mon", "Tue", "Wed", "Thu", "Fri", "Sat"]

/-- `months` -/
def months : List String :=
  ["Jan", "Feb", "Mar", "Apr", "May", "Jun", "Jul", "Aug", "Sep", "Oct", "Nov", "Dec"]

/-- The conversion `%0nd`: the sign, if there is one, and then zeros and the digits, in
all no less than `n`. -/
def zeroPadded (n : ℕ) (x : ℤ) : String :=
  let digits := toString x.natAbs
  let sign := if x < 0 then "-" else ""
  sign ++ String.ofList (List.replicate (n - sign.length - digits.length) '0') ++ digits

/-- A `uint32_t` as an `int`. -/
def toInt (n : ℕ) : ℤ := if n < 2 ^ 31 then n else n - 2 ^ 32

/-- **The conversion `%s`**: the string up to its first `NUL`, or `(null)` where there is
none. -/
def percentS : Option String → String
  | some text => String.ofList (text.toList.takeWhile fun c => UInt8.ofNat c.toNat ≠ 0)
  | none => "(null)"

/-- What the calls of `snprintf` in `make_response` print, in their order. -/
def pieces (httpcode : String) (body : Option String) (contentLength : ℕ) (tm : Tm) :
    List String :=
  ["HTTP/1.1 " ++ percentS (some httpcode), "\r\n",
    "Date: " ++ daysOfWeek.getD tm.wday "" ++ ", " ++ zeroPadded 2 tm.mday ++ " " ++
      months.getD tm.mon "" ++ " " ++ zeroPadded 4 (tm.year + 1900) ++ " " ++
      zeroPadded 2 tm.hour ++ ":" ++ zeroPadded 2 tm.min ++ ":" ++ zeroPadded 2 tm.sec ++
      " GMT\r\n",
    "Content-Length: " ++ toString (toInt contentLength) ++ "\r\n",
    "Content-Type: text/plain\r\n", "\r\n"]
    ++ if 0 < contentLength then [percentS body] else []

/-- What is written to a buffer from an index on. -/
def write (buffer : ℕ → UInt8) (i : ℕ) (text : List UInt8) : ℕ → UInt8 :=
  fun k => if i ≤ k ∧ k < i + text.length then text.getD (k - i) 0 else buffer k

/-- `snprintf(buffer + i, size, "%s", text)`: of the text and the byte `0` after it,
what fits, the last byte being `0`. -/
def snprintf (buffer : ℕ → UInt8) (i size : ℕ) (text : List UInt8) : ℕ → UInt8 :=
  if size = 0 then buffer else write buffer i (text.take (size - 1) ++ [0])

/-- One call of `snprintf` in `make_response`. -/
def print (buflen : ℕ) (s : (ℕ → UInt8) × ℕ) (text : String) : (ℕ → UInt8) × ℕ :=
  (snprintf s.1 s.2 ((buflen + 2 ^ 32 - s.2) % 2 ^ 32) (bytes text),
    (s.2 + (bytes text).length) % 2 ^ 32)

/-- **`make_response`**: its result, and the buffer afterwards. -/
def makeResponse (buffer : ℕ → UInt8) (buflen : ℕ) (httpcode : String) (body : Option String)
    (contentLength : ℕ) (tm : Tm) : ℤ × (ℕ → UInt8) :=
  let (buffer, responseLength) := (pieces httpcode body contentLength tm).foldl (print buflen)
    (buffer, 0)
  (if buflen ≤ responseLength then -1 else toInt responseLength, buffer)

/-! ### Strings -/

/-- The bytes printed of a string are those before the first `NUL`. -/
theorem bytes_percentS (text : String) :
    bytes (percentS (some text)) = (bytes text).takeWhile (· ≠ 0) := by
  rw [percentS, bytes, String.toList_ofList, bytes, List.takeWhile_map]
  rfl

/-- The text has no `NUL`. -/
def NoNul (text : String) : Prop := (0 : UInt8) ∉ bytes text

instance (text : String) : Decidable (NoNul text) := inferInstanceAs (Decidable (_ ∉ _))

/-- A text put together from literals has none, if no literal has. -/
theorem noNul_ofList {l : List Char} (h : l.all fun c => c.toNat % 256 ≠ 0) :
    NoNul (String.ofList l) := by
  rw [NoNul, bytes, String.toList_ofList, List.mem_map]
  rintro ⟨c, hc, hzero⟩
  have hne := of_decide_eq_true (List.all_eq_true.mp h c hc)
  exact hne ((UInt8.toNat_ofNat' ..).symm.trans (congrArg UInt8.toNat hzero))

theorem NoNul.append {a : String} {l : List Char} (ha : NoNul a)
    (h : l.all fun c => c.toNat % 256 ≠ 0) : NoNul (a ++ String.ofList l) := by
  have hl := noNul_ofList h
  rw [NoNul, bytes] at ha hl ⊢
  rw [String.toList_append, List.map_append, List.mem_append]
  exact not_or.mpr ⟨ha, hl⟩

/-- A string without one is printed as it is. -/
theorem NoNul.percentS {text : String} (h : NoNul text) :
    bytes (percentS (some text)) = bytes text := by
  rw [bytes_percentS]
  refine List.takeWhile_eq_self_iff.mpr fun b hb => decide_eq_true ?_
  rintro rfl
  exact h hb

/-! ### What a response depends on -/

/-- A write leaves two buffers with equal bytes where it writes, and where they had them. -/
theorem write_congr {x y : ℕ → UInt8} {i k : ℕ} (text : List UInt8)
    (h : i ≤ k ∧ k < i + text.length ∨ x k = y k) : write x i text k = write y i text k := by
  unfold write
  split_ifs with hk
  · have hlt : k - i < text.length := by omega
    simp only [List.getD_eq_getElem?_getD, List.getElem?_eq_getElem hlt, Option.getD_some]
  · exact h.resolve_left hk

/-- **What was printed does not depend on what was there before**: buffers that agree on what
is printed so far agree on it after the next text. -/
theorem print_agree {buflen i : ℕ} (hb : buflen < 2 ^ 32) {x y : ℕ → UInt8} (text : String)
    (h : ∀ k < min i buflen, x k = y k) :
    ∀ k < min (print buflen (x, i) text).2 buflen,
      (print buflen (x, i) text).1 k = (print buflen (y, i) text).1 k := by
  intro k hk
  have hend : k < i + (bytes text).length ∧ k < buflen :=
    ⟨lt_of_lt_of_le (lt_min_iff.mp hk).1 (Nat.mod_le _ _), (lt_min_iff.mp hk).2⟩
  simp only [print, snprintf]
  by_cases hki : k < i
  · have hagree : x k = y k := h k (lt_min hki hend.2)
    split_ifs
    · exact hagree
    · exact write_congr _ (Or.inr hagree)
  · -- what is left of the buffer was not computed below zero, and reaches up to its end
    have hsize : (buflen + 2 ^ 32 - i) % 2 ^ 32 = buflen - i := by
      have hsum : buflen + 2 ^ 32 - i = buflen - i + 2 ^ 32 := by omega
      rw [hsum, Nat.add_mod_right, Nat.mod_eq_of_lt (by omega)]
    rw [hsize, if_neg (by omega), if_neg (by omega)]
    refine write_congr _ (Or.inl ⟨by omega, ?_⟩)
    rw [List.length_append, List.length_take, List.length_singleton]
    omega

theorem foldl_print_agree {buflen : ℕ} (hb : buflen < 2 ^ 32) (texts : List String) :
    ∀ {x y : ℕ → UInt8} {i : ℕ}, (∀ k < min i buflen, x k = y k) →
      (texts.foldl (print buflen) (x, i)).2 = (texts.foldl (print buflen) (y, i)).2 ∧
        ∀ k < min (texts.foldl (print buflen) (x, i)).2 buflen,
          (texts.foldl (print buflen) (x, i)).1 k = (texts.foldl (print buflen) (y, i)).1 k := by
  induction texts with
  | nil => exact fun h => ⟨rfl, h⟩
  | cons text texts ih => exact fun h => ih (print_agree hb text h)

/-- The length so far, as a `uint32_t`. -/
theorem foldl_print_length (buflen : ℕ) (texts : List String) :
    ∀ {x : ℕ → UInt8} {i : ℕ}, i < 2 ^ 32 → (texts.foldl (print buflen) (x, i)).2 =
      (i + (texts.map fun text => (bytes text).length).sum) % 2 ^ 32 := by
  induction texts with
  | nil => exact fun hi => (Nat.mod_eq_of_lt hi).symm
  | cons text texts ih =>
    intro x i hi
    rw [List.foldl_cons, List.map_cons, List.sum_cons]
    refine (ih (Nat.mod_lt _ (by decide))).trans ?_
    rw [Nat.mod_add_mod, Nat.add_assoc]

theorem foldl_print_lt {buflen : ℕ} (texts : List String) {x : ℕ → UInt8} {i : ℕ}
    (hi : i < 2 ^ 32) : (texts.foldl (print buflen) (x, i)).2 < 2 ^ 32 := by
  rw [foldl_print_length buflen texts hi]
  exact Nat.mod_lt _ (by decide)

theorem toNat_toInt_le {n : ℕ} (hn : n < 2 ^ 32) : (toInt n).toNat ≤ n := by
  rw [toInt]
  split_ifs <;> omega

/-- **A response does not depend on the buffer it is put into**: neither its result does, nor
do the bytes of it, where it fits. -/
theorem makeResponse_agree {buflen : ℕ} (hb : buflen < 2 ^ 32) (x y : ℕ → UInt8)
    (httpcode : String) (body : Option String) (contentLength : ℕ) (tm : Tm) :
    (makeResponse x buflen httpcode body contentLength tm).1 =
        (makeResponse y buflen httpcode body contentLength tm).1 ∧
      ∀ k < (makeResponse x buflen httpcode body contentLength tm).1.toNat,
        (makeResponse x buflen httpcode body contentLength tm).2 k =
          (makeResponse y buflen httpcode body contentLength tm).2 k := by
  simp only [makeResponse]
  obtain ⟨texts, htexts⟩ : ∃ texts, pieces httpcode body contentLength tm = texts := ⟨_, rfl⟩
  rw [htexts]
  obtain ⟨hlen, hbytes⟩ := foldl_print_agree hb texts (x := x) (y := y) (i := 0) (by simp)
  refine ⟨by rw [hlen], fun k hk => hbytes k ?_⟩
  split_ifs at hk
  · exact absurd hk (by simp)
  · have hlt := lt_of_lt_of_le hk (toNat_toInt_le (foldl_print_lt texts (by decide)))
    exact lt_min hlt (by omega)

/-- **The result is the length of the response**, as a `uint32_t`, where it fits. -/
theorem makeResponse_fst (buffer : ℕ → UInt8) (buflen : ℕ) (httpcode : String)
    (body : Option String) (contentLength : ℕ) (tm : Tm) {n : ℕ}
    (h : ((pieces httpcode body contentLength tm).map fun text => (bytes text).length).sum = n)
    (hn : n < 2 ^ 31) : (makeResponse buffer buflen httpcode body contentLength tm).1 =
      if buflen ≤ n then (-1 : ℤ) else n := by
  have hlen := foldl_print_length buflen (pieces httpcode body contentLength tm)
    (x := buffer) (i := 0) (by decide)
  rw [h, Nat.zero_add, Nat.mod_eq_of_lt (by omega)] at hlen
  simp only [makeResponse]
  rw [hlen, toInt, if_pos hn]

/-! ### The responses -/

/-- `response_ok` -/
def responseOk (buffer : ℕ → UInt8) (buflen : ℕ) (body : Option String) (contentLength : ℕ)
    (tm : Tm) : ℤ × (ℕ → UInt8) :=
  makeResponse buffer buflen "200 OK" body contentLength tm

/-- `response_notfound` -/
def responseNotfound (buffer : ℕ → UInt8) (buflen : ℕ) (body : Option String)
    (contentLength : ℕ) (tm : Tm) : ℤ × (ℕ → UInt8) :=
  makeResponse buffer buflen "404 Not Found" body contentLength tm

/-- `response_err` -/
def responseErr (buffer : ℕ → UInt8) (buflen : ℕ) (body : Option String) (contentLength : ℕ)
    (tm : Tm) : ℤ × (ℕ → UInt8) :=
  makeResponse buffer buflen "500 Internal Server Error" body contentLength tm

/-- `response_toolarge` -/
def responseToolarge (buffer : ℕ → UInt8) (buflen : ℕ) (body : Option String)
    (contentLength : ℕ) (tm : Tm) : ℤ × (ℕ → UInt8) :=
  makeResponse buffer buflen "413 Content Too Large" body contentLength tm

/-- `response_badrequest` -/
def responseBadrequest (buffer : ℕ → UInt8) (buflen : ℕ) (body : Option String)
    (contentLength : ℕ) (tm : Tm) : ℤ × (ℕ → UInt8) :=
  makeResponse buffer buflen "400 Bad Request" body contentLength tm

/-- `response_body` -/
def responseBody : String :=
  "CHAPTER I. Down the Rabbit-Hole  Alice was beginning to get very tired of sitting by her " ++
    "sister on the bank, and of having nothing to do: once or twice she had peeped into the book " ++
    "her sister was reading, but it had no pictures or conversations in it, <and what is the use " ++
    "of a book,> thought Alice <without pictures or conversations?> So she was considering in her " ++
    "own mind (as well as she could, for the hot day made her feel very sleepy and stupid), " ++
    "whether the pleasure of making a daisy-chain would be worth the trouble of getting up and " ++
    "picking the daisies, when suddenly a White Rabbit with pink eyes ran close by her. There was " ++
    "nothing so very remarkable in that; nor did Alice think it so very much out of the way to " ++
    "hear the Rabbit say to itself, <Oh dear! Oh dear! I shall be late!> (when she thought it over " ++
    "afterwards, it occurred to her that she ought to have wondered at this, but at the time it " ++
    "all seemed quite natural); but when the Rabbit actually took a watch out of its " ++
    "waistcoat-pocket, and looked at it, and then hurried on, Alice started to her feet, for it " ++
    "flashed across her mind that she had never before seen a rabbit with either a " ++
    "waistcoat-pocket, or a watch to take out of it, and burning with curiosity, she ran across " ++
    "the field after it, and fortunately was just in time to see it pop down a large rabbit-hole " ++
    "under the hedge. In another moment down went Alice after it, never once considering how in " ++
    "the world she was to get out again. The rabbit-hole went straight on like a tunnel for some " ++
    "way, and then dipped suddenly down, so suddenly that Alice had not a moment to think about " ++
    "stopping herself before she found herself falling down a very deep well. Either the well was " ++
    "very deep, or she fell very slowly, for she had plenty of time as she went down to look about " ++
    "her and to wonder what was going to happen next. First, she tried to look down and make out " ++
    "what she was coming to, but it was too dark to see anything; then she looked at the sides of " ++
    "the well, and noticed that they were filled with cupboards......\n"

theorem noNul_responseBody : NoNul responseBody := by
  unfold responseBody
  iterate 22 refine NoNul.append ?_ (by decide +kernel)
  exact noNul_ofList (by decide +kernel)

/-- The text and `n` more characters are `k` characters. A text put together from literals is
measured from its end, one literal at a time. -/
structure Measures (text : String) (n k : ℕ) : Prop where
  eq : text.toList.length + n = k

theorem Measures.append {a : String} {l : List Char} {n k : ℕ} (h : Measures a (l.length + n) k) :
    Measures (a ++ String.ofList l) n k := by
  refine ⟨?_⟩
  rw [String.toList_append, List.length_append, String.toList_ofList, Nat.add_assoc, h.eq]

theorem Measures.ofList {l : List Char} {n k : ℕ} (h : l.length + n = k) :
    Measures (String.ofList l) n k :=
  ⟨by rw [String.toList_ofList, h]⟩

theorem measures_responseBody : Measures responseBody 0 2054 := by
  unfold responseBody
  iterate 22 refine Measures.append ?_
  refine Measures.ofList ?_
  decide +kernel

theorem length_responseBody : (bytes responseBody).length = 2054 :=
  (List.length_map _).trans ((Nat.add_zero _).symm.trans measures_responseBody.eq)

end Http

end Waeio
