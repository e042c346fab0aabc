import Mathlib.Data.List.Induction
import Waeio.Http.Response

/-!
# Whether a response stays in its buffer

`make_response` prints one piece after the other, each at the length so far, and passes to
`snprintf` what is left of the buffer: `buflen - response_length`, a difference of two
`uint32_t`. It asks only at the end whether the buffer was long enough. Once the length is
greater than `buflen` the difference wraps, and the next piece is printed behind the buffer
as if there were four gigabytes of it.

So the buffer is kept, and the result is right, exactly if all but the last piece fit
without the byte `0` (`Waeio.makeResponse_keepsBuffer_iff`). Besides, the length of the
whole must be one that the result, an `int`, can tell: `Waeio.Http.KeepsBuffer` fails for
responses of two gigabytes and more that do fit.

What is taken of `snprintf` is that it returns the length of the piece. It is an `int`, so
there is no piece of two gigabytes or more.
-/

namespace Waeio

namespace Http

/-- The length of texts. -/
def total (texts : List String) : ℕ := (texts.map fun text => (bytes text).length).sum

/-- The size that `make_response` passes to `snprintf`, after `n` bytes. -/
def sizeAt (buflen n : ℕ) : ℕ := (buflen + 2 ^ 32 - n) % 2 ^ 32

theorem print_eq (buflen : ℕ) (s : (ℕ → UInt8) × ℕ) (text : String) :
    print buflen s text =
      (snprintf s.1 s.2 (sizeAt buflen s.2) (bytes text),
        (s.2 + (bytes text).length) % 2 ^ 32) :=
  rfl

/-- `response_length` after the calls that print `texts`. -/
def responseLength (buffer : ℕ → UInt8) (buflen : ℕ) (texts : List String) : ℕ :=
  (texts.foldl (print buflen) (buffer, 0)).2

/-- **The response stays in its buffer**, and the result says so. The calls of `snprintf` are
those between the pieces `before` it and those after it. -/
structure KeepsBuffer (buffer : ℕ → UInt8) (buflen : ℕ) (httpcode : String)
    (body : Option String) (contentLength : ℕ) (tm : Tm) : Prop where
  /-- Each call is passed no more than the room that is left. -/
  size_le : ∀ before text after, pieces httpcode body contentLength tm = before ++ text :: after →
    sizeAt buflen (responseLength buffer buflen before) ≤ buflen - total before
  /-- What a call writes, the text and the byte `0` as far as they have room, is in the
  buffer. -/
  inside : ∀ before text after, pieces httpcode body contentLength tm = before ++ text :: after →
    sizeAt buflen (responseLength buffer buflen before) ≠ 0 →
      responseLength buffer buflen before + min ((bytes text).length + 1)
        (sizeAt buflen (responseLength buffer buflen before)) ≤ buflen
  /-- Nothing behind the buffer is changed. -/
  outside : ∀ k, buflen ≤ k → (makeResponse buffer buflen httpcode body contentLength tm).2 k =
    buffer k
  /-- The result is the length of the response, if there is room for it and the byte `0`. -/
  result : (makeResponse buffer buflen httpcode body contentLength tm).1 =
    if total (pieces httpcode body contentLength tm) + 1 ≤ buflen then
      (total (pieces httpcode body contentLength tm) : ℤ)
    else -1

variable {buffer : ℕ → UInt8} {buflen : ℕ} {texts before after : List String} {text : String}

/-! ### Lengths -/

@[simp] theorem total_nil : total [] = 0 := rfl

@[simp] theorem total_append (l m : List String) : total (l ++ m) = total l + total m := by
  simp [total]

@[simp] theorem total_singleton (text : String) : total [text] = (bytes text).length := by
  simp [total]

/-- The length so far is that of the pieces, as a `uint32_t`. -/
theorem responseLength_eq (buffer : ℕ → UInt8) (buflen : ℕ) (texts : List String) :
    responseLength buffer buflen texts = total texts % 2 ^ 32 := by
  rw [responseLength, foldl_print_length buflen texts (by decide), Nat.zero_add, total]

/-- What is left is not computed below zero as long as the length fits. -/
theorem sizeAt_of_le {n : ℕ} (hb : buflen < 2 ^ 32) (h : n ≤ buflen) :
    sizeAt buflen n = buflen - n := by
  rw [sizeAt]
  omega

/-- **Where it does not fit, the size is too large**, unless the length has come round to
`buflen` once more. -/
theorem sizeAt_eq_zero_iff {n : ℕ} (hb : buflen < 2 ^ 32) (hn : n < 2 ^ 32) :
    sizeAt buflen n = 0 ↔ n = buflen := by
  rw [sizeAt]
  omega

/-! ### One piece -/

/-- What is printed in the buffer leaves the bytes behind it alone. -/
theorem snprintf_of_ge {i size k : ℕ} (text : List UInt8)
    (h : size ≠ 0 → i + min (text.length + 1) size ≤ buflen) (hk : buflen ≤ k) :
    snprintf buffer i size text k = buffer k := by
  rw [snprintf]
  split_ifs with hsize
  · rfl
  · have hend := h hsize
    rw [write, if_neg]
    rw [List.length_append, List.length_take, List.length_singleton]
    omega

/-- Printing in the buffer, piece after piece, leaves the bytes behind it alone. -/
theorem foldl_print_of_ge
    (h : ∀ before text after, texts = before ++ text :: after →
      sizeAt buflen (responseLength buffer buflen before) ≠ 0 →
        responseLength buffer buflen before + min ((bytes text).length + 1)
          (sizeAt buflen (responseLength buffer buflen before)) ≤ buflen) {k : ℕ}
    (hk : buflen ≤ k) : (texts.foldl (print buflen) (buffer, 0)).1 k = buffer k := by
  induction texts using List.reverseRecOn with
  | nil => rfl
  | append_singleton texts text ih =>
    rw [List.foldl_append, List.foldl_cons, List.foldl_nil, print_eq]
    refine (snprintf_of_ge (bytes text) (h texts text [] rfl) hk).trans ?_
    exact ih fun before t after heq => h before t (after ++ [text]) (by rw [heq]; simp)

/-! ### All pieces -/

/-- **The pieces before a call fit, if each call is passed no more than what is left**: the
first that does not makes the next size wrap. -/
theorem total_le_of_size_le (hb : buflen < 2 ^ 32)
    (hsize : ∀ before text after, texts = before ++ text :: after →
      sizeAt buflen (responseLength buffer buflen before) ≤ buflen - total before)
    (hint : ∀ text ∈ texts, (bytes text).length < 2 ^ 31) (heq : texts = before ++ text :: after) :
    total before ≤ buflen := by
  induction before using List.reverseRecOn generalizing text after with
  | nil => exact Nat.zero_le _
  | append_singleton before last ih =>
    have hle := @ih (text :: after) last (by rw [heq]; simp)
    have hlast : (bytes last).length < 2 ^ 31 := hint last (by rw [heq]; simp)
    by_contra hgt
    -- nothing is left, so the size would have to be zero
    have hzero := Nat.le_zero.mp
      ((hsize _ _ _ heq).trans (Nat.sub_eq_zero_of_le (Nat.le_of_not_le hgt)).le)
    rw [responseLength_eq, sizeAt_eq_zero_iff hb (Nat.mod_lt _ (by decide))] at hzero
    rw [total_append, total_singleton] at hgt hzero
    omega

/-- **Each call is passed what is left** where all but the last piece fit: the pieces before
any call are among these. -/
theorem size_eq_of_dropLast_le (buffer : ℕ → UInt8) (hb : buflen < 2 ^ 32)
    (hle : total texts.dropLast ≤ buflen) (heq : texts = before ++ text :: after) :
    responseLength buffer buflen before = total before ∧
      sizeAt buflen (total before) = buflen - total before ∧ total before ≤ buflen := by
  have hfits : total before ≤ buflen := by
    refine le_trans ?_ hle
    rw [heq, List.dropLast_append_of_ne_nil (List.cons_ne_nil _ _), total_append]
    exact Nat.le_add_right _ _
  exact ⟨by rw [responseLength_eq, Nat.mod_eq_of_lt (lt_of_le_of_lt hfits hb)],
    sizeAt_of_le hb hfits, hfits⟩

/-- **The result is right** exactly if the length is not too much for it, where all but the last
piece fit. -/
theorem result_iff {n : ℕ} (hb : buflen < 2 ^ 32) (hn : n < buflen + 2 ^ 31) :
    ((if buflen ≤ n % 2 ^ 32 then (-1 : ℤ) else toInt (n % 2 ^ 32)) =
        if n + 1 ≤ buflen then (n : ℤ) else -1) ↔
      n < 2 ^ 32 ∧ (n < 2 ^ 31 ∨ buflen ≤ n) := by
  rw [toInt]
  split_ifs <;> first | omega | exact iff_of_false id (by omega)

theorem makeResponse_eq (buffer : ℕ → UInt8) (buflen : ℕ) (httpcode : String)
    (body : Option String) (contentLength : ℕ) (tm : Tm) :
    (makeResponse buffer buflen httpcode body contentLength tm).1 =
      if buflen ≤ total (pieces httpcode body contentLength tm) % 2 ^ 32 then (-1 : ℤ)
      else toInt (total (pieces httpcode body contentLength tm) % 2 ^ 32) := by
  have hlen := responseLength_eq buffer buflen (pieces httpcode body contentLength tm)
  rw [responseLength] at hlen
  simp only [makeResponse]
  rw [hlen]

/-- There is always a last piece. -/
theorem pieces_ne_nil (httpcode : String) (body : Option String) (contentLength : ℕ) (tm : Tm) :
    pieces httpcode body contentLength tm ≠ [] :=
  List.cons_ne_nil _ _

end Http

open Http

/-- **A response stays in its buffer exactly if all but its last piece fit**, and its length is
below two gigabytes, or four where it does not fit. -/
theorem makeResponse_keepsBuffer_iff (buffer : ℕ → UInt8) (buflen : ℕ) (hb : buflen < 2 ^ 32)
    (httpcode : String) (body : Option String) (contentLength : ℕ) (tm : Tm)
    (hint : ∀ text ∈ pieces httpcode body contentLength tm, (bytes text).length < 2 ^ 31) :
    KeepsBuffer buffer buflen httpcode body contentLength tm ↔
      total (pieces httpcode body contentLength tm).dropLast ≤ buflen ∧
        total (pieces httpcode body contentLength tm) < 2 ^ 32 ∧
          (total (pieces httpcode body contentLength tm) < 2 ^ 31 ∨
            buflen ≤ total (pieces httpcode body contentLength tm)) := by
  have hne := pieces_ne_nil httpcode body contentLength tm
  have hresult := makeResponse_eq buffer buflen httpcode body contentLength tm
  have hbuffer : (makeResponse buffer buflen httpcode body contentLength tm).2 =
      ((pieces httpcode body contentLength tm).foldl (print buflen) (buffer, 0)).1 := by
    simp only [makeResponse]
  have hlast := (List.dropLast_concat_getLast hne).symm
  have hlt : total (pieces httpcode body contentLength tm) <
      total (pieces httpcode body contentLength tm).dropLast + 2 ^ 31 := by
    conv_lhs => rw [hlast]
    rw [total_append, total_singleton]
    exact Nat.add_lt_add_left (hint _ (List.getLast_mem hne)) _
  constructor
  · intro h
    have hle := total_le_of_size_le hb h.size_le hint hlast
    exact ⟨hle, (result_iff hb (by omega)).mp (hresult.symm.trans h.result)⟩
  · rintro ⟨hle, hcond⟩
    have hsize : ∀ before text after,
        pieces httpcode body contentLength tm = before ++ text :: after →
          responseLength buffer buflen before = total before ∧
            sizeAt buflen (total before) = buflen - total before ∧ total before ≤ buflen :=
      fun before text after heq => size_eq_of_dropLast_le buffer hb hle heq
    have hinside : ∀ before text after,
        pieces httpcode body contentLength tm = before ++ text :: after →
          sizeAt buflen (responseLength buffer buflen before) ≠ 0 →
            responseLength buffer buflen before + min ((bytes text).length + 1)
              (sizeAt buflen (responseLength buffer buflen before)) ≤ buflen := by
      intro before text after heq _
      obtain ⟨hlen, hroom, hfits⟩ := hsize before text after heq
      rw [hlen, hroom]
      omega
    refine ⟨fun before text after heq => ?_, hinside, fun k hk => ?_, ?_⟩
    · obtain ⟨hlen, hroom, -⟩ := hsize before text after heq
      rw [hlen, hroom]
    · rw [hbuffer]
      exact foldl_print_of_ge hinside hk
    · exact hresult.trans ((result_iff hb (by omega)).mpr hcond)

namespace Http

/-- Midnight of the first of January 1970. -/
def midnight : Tm := ⟨4, 1, 0, 70, 0, 0, 0⟩

-- A body that is not there is printed, once there is to be one.
example : total (pieces "200 OK" none 0 midnight) = 101 ∧
    total (pieces "200 OK" none 5 midnight) = 107 := by decide +kernel

end Http

/-- A bad request is answered in a buffer of 4096 bytes. -/
theorem makeResponse_keepsBuffer_iff_badRequest :
    KeepsBuffer (fun _ => 0) 4096 "400 Bad Request" none 0 midnight :=
  (makeResponse_keepsBuffer_iff _ 4096 (by decide) _ _ _ _ (by decide +kernel)).mpr
    (by decide +kernel)

/-- **Behind a buffer of ten bytes**: the first piece has fifteen, and the second is passed the
size `2 ^ 32 - 5`. -/
theorem not_makeResponse_keepsBuffer : ¬ ∀ buffer buflen httpcode body contentLength tm,
    buflen < 2 ^ 32 →
      (∀ text ∈ pieces httpcode body contentLength tm, (bytes text).length < 2 ^ 31) →
        KeepsBuffer buffer buflen httpcode body contentLength tm := by
  intro h
  have hkeeps := h (fun _ => 0) 10 "200 OK" none 0 midnight (by decide) (by decide +kernel)
  have hsize := hkeeps.size_le ["HTTP/1.1 " ++ percentS (some "200 OK")] "\r\n" _ rfl
  exact absurd hsize (by decide +kernel)

end Waeio
