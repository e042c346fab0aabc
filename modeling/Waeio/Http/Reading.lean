import Waeio.Http.Bounds
import Waeio.Http.Request
import Waeio.Lib.Lines
import Waeio.Lib.Messages

/-!
# Reading a response

What a client makes of the bytes of a response: a head of lines, an empty line, and as many
bytes of body as the field `Content-Length` says (`Waeio.Http.readReply`). It is written down
here from what a response is for, and not from the code.

`make_response` takes the body as a string, and its length as another argument, which it
prints without looking at the body. The response it has built is read back, with whatever
comes behind it on the connection, exactly if the two agree
(`Waeio.makeResponse_readReply_iff`).
-/

namespace Waeio

namespace Http

/-! ### The client -/

/-- **A response**, as a client understands it. -/
structure Reply where
  /-- The line with the status. -/
  status : List UInt8
  /-- The lines of the fields. -/
  fields : List (List UInt8)
  /-- The body. -/
  body : List UInt8
  deriving DecidableEq, Repr

/-- The byte is a decimal digit. -/
def IsDigit (b : UInt8) : Prop := 48 ≤ b.toNat ∧ b.toNat ≤ 57

instance : DecidablePred IsDigit := fun _ => inferInstanceAs (Decidable (_ ∧ _))

/-- A decimal number. -/
def decimal (l : List UInt8) : Option ℕ :=
  if l ≠ [] ∧ l.all (IsDigit ·) then some (l.foldl (fun n b => 10 * n + (b.toNat - 48)) 0)
  else none

/-- **The length of the body**, by the first field that says so. -/
def lengthField (fields : List (List UInt8)) : Option ℕ :=
  fields.findSome? fun field =>
    if bytes "Content-Length: " <+: field then
      decimal (field.drop (bytes "Content-Length: ").length)
    else none

/-- **Reads a response**, and leaves what is behind it. -/
def readReply (l : List UInt8) : Option (Reply × List UInt8) :=
  match Lines.read 13 10 l with
  | some (status :: fields, rest) =>
    match lengthField fields with
    | some n =>
      if n ≤ rest.length then some (⟨status, fields, rest.take n⟩, rest.drop n) else none
    | none => none
  | _ => none

/-- The bytes of a response. -/
def Reply.text (r : Reply) : List UInt8 := Lines.encode 13 10 (r.status :: r.fields) r.body

/-- **What a client takes off the connection** are the bytes of the response it reads. -/
theorem exact_readReply : Messages.Exact readReply Reply.text := by
  intro l r rest h
  rw [readReply] at h
  split at h
  · rename_i status fields body hread
    split at h
    · rename_i n hlength
      obtain ⟨hle, hpair⟩ := Option.ite_none_right_eq_some.mp h
      obtain ⟨rfl, rfl⟩ := Prod.mk.inj (Option.some.inj hpair)
      rw [Lines.eq_encode_of_read hread]
      simp [Reply.text, Lines.encode]
    · cases h
  · cases h

/-! ### Texts without an end of line -/

/-- The text does not have the letter that begins the end of a line. -/
def OneLine (text : String) : Prop := (13 : UInt8) ∉ bytes text

instance (text : String) : Decidable (OneLine text) := inferInstanceAs (Decidable (_ ∉ _))

theorem bytes_append (a b : String) : bytes (a ++ b) = bytes a ++ bytes b := by
  simp [bytes]

/-- The end of a text, in two parts. -/
theorem bytes_append_of_eq {a b c : String} {l : List UInt8} (h : bytes b = bytes c ++ l) :
    bytes (a ++ b) = bytes (a ++ c) ++ l := by
  rw [bytes_append a b, bytes_append a c, h, List.append_assoc]

theorem OneLine.append {a b : String} (ha : OneLine a) (hb : OneLine b) : OneLine (a ++ b) := by
  rw [OneLine, bytes_append, List.mem_append]
  exact not_or.mpr ⟨ha, hb⟩

/-- What is printed of a string has no letter that the string does not have. -/
theorem OneLine.percentS {text : String} (h : OneLine text) :
    OneLine (percentS (some text)) := by
  rw [OneLine, bytes_percentS]
  exact fun hmem => h ((List.takeWhile_sublist _).subset hmem)

theorem oneLine_getD {texts : List String} (h : ∀ text ∈ texts, OneLine text) (i : ℕ) :
    OneLine (texts.getD i "") := by
  rw [List.getD_eq_getElem?_getD]
  cases hget : texts[i]? with
  | none => exact List.not_mem_nil
  | some text => exact h text (List.mem_of_getElem? hget)

/-- The byte of a digit. -/
theorem toNat_byte_of_isDigit {c : Char} (h : c.isDigit = true) :
    (UInt8.ofNat c.toNat).toNat = c.toNat ∧ 48 ≤ c.toNat ∧ c.toNat ≤ 57 := by
  have hrange : 48 ≤ c.toNat ∧ c.toNat ≤ 57 := by
    simpa [Char.isDigit, UInt32.le_iff_toNat_le] using h
  refine ⟨?_, hrange⟩
  rw [UInt8.toNat_ofNat']
  exact Nat.mod_eq_of_lt (by omega)

theorem isDigit_of_mem_toString {n : ℕ} {c : Char} (h : c ∈ (toString n).toList) :
    c.isDigit = true := by
  rw [Nat.toString_eq_repr, Nat.toList_repr] at h
  exact Nat.isDigit_of_mem_toDigits (by decide) (by decide) h

theorem isDigit_of_mem_bytes {n : ℕ} {b : UInt8} (h : b ∈ bytes (toString n)) : IsDigit b := by
  obtain ⟨c, hc, rfl⟩ := List.mem_map.mp h
  obtain ⟨hbyte, hrange⟩ := toNat_byte_of_isDigit (isDigit_of_mem_toString hc)
  rw [IsDigit, hbyte]
  exact hrange

/-- **A number is read back.** -/
theorem decimal_toString (n : ℕ) : decimal (bytes (toString n)) = some n := by
  have hne : bytes (toString n) ≠ [] := by
    rw [bytes, Ne, List.map_eq_nil_iff, Nat.toString_eq_repr, Nat.toList_repr]
    exact Nat.toDigits_ne_nil
  have hdigits : (bytes (toString n)).all (IsDigit ·) = true :=
    List.all_eq_true.mpr fun b hb => decide_eq_true (isDigit_of_mem_bytes hb)
  rw [decimal, if_pos ⟨hne, hdigits⟩, bytes, List.foldl_map]
  have hfold : ∀ (l : List Char) (k : ℕ), (∀ c ∈ l, c.isDigit = true) →
      l.foldl (fun n c => 10 * n + ((UInt8.ofNat c.toNat).toNat - 48)) k =
        Nat.ofDigitChars 10 l k := by
    intro l
    induction l with
    | nil => exact fun k _ => Nat.ofDigitChars_nil.symm
    | cons c l ih =>
      intro k hl
      obtain ⟨hc, hrest⟩ := List.forall_mem_cons.mp hl
      rw [List.foldl_cons, Nat.ofDigitChars_cons, ih _ hrest, (toNat_byte_of_isDigit hc).1]
      rfl
  rw [hfold _ _ fun c hc => isDigit_of_mem_toString hc, Nat.toString_eq_repr, Nat.toList_repr,
    Nat.ofDigitChars_ten_toDigits]

theorem oneLine_toString (n : ℕ) : OneLine (toString n) := by
  intro h
  have hdigit := isDigit_of_mem_bytes h
  rw [IsDigit] at hdigit
  exact absurd hdigit.1 (by decide)

theorem oneLine_zeroPadded (n : ℕ) (x : ℤ) : OneLine (zeroPadded n x) := by
  unfold zeroPadded
  refine ((?_ : OneLine _).append ?_).append (oneLine_toString _)
  · split_ifs <;> decide
  · intro h
    obtain ⟨c, hc, hbyte⟩ := List.mem_map.mp h
    rw [String.toList_ofList] at hc
    rw [List.eq_of_mem_replicate hc] at hbyte
    exact absurd hbyte (by decide)

/-! ### The bytes of a response -/

/-- **A piece that fits** is behind what was there. -/
theorem contents_snprintf {buffer : ℕ → UInt8} {i size : ℕ} {text : List UInt8}
    (h : text.length < size) :
    contents (snprintf buffer i size text) (i + text.length) = contents buffer i ++ text := by
  rw [snprintf, if_neg (by omega), List.take_of_length_le (by omega), contents_add]
  congr 1
  · refine List.map_congr_left fun k hk => ?_
    have hlt := List.mem_range.mp hk
    rw [write, if_neg (by omega)]
  · refine List.ext_getElem (by rw [length_contents]) fun k hk hk' => ?_
    have hlt : k < (text ++ [0]).length := by
      rw [List.length_append]
      exact Nat.lt_add_right _ hk'
    have hget : (text ++ [0]).getD k 0 = text[k] := by
      rw [List.getD_eq_getElem?_getD, List.getElem?_eq_getElem hlt, Option.getD_some,
        List.getElem_append_left hk']
    simp only [contents, List.getElem_map, List.getElem_range]
    rw [write, if_pos (by omega), Nat.add_sub_cancel_left, hget]

/-- **The pieces are one behind the other**, if they all fit. -/
theorem contents_foldl_print {buflen : ℕ} (hb : buflen < 2 ^ 32) (buffer : ℕ → UInt8)
    {texts : List String} (h : total texts < buflen) :
    contents (texts.foldl (print buflen) (buffer, 0)).1 (total texts) = texts.flatMap bytes := by
  induction texts using List.reverseRecOn with
  | nil => rfl
  | append_singleton texts text ih =>
    rw [total_append, total_singleton] at h ⊢
    have hlen : (texts.foldl (print buflen) (buffer, 0)).2 = total texts := by
      have heq := responseLength_eq buffer buflen texts
      rwa [responseLength, Nat.mod_eq_of_lt (by omega)] at heq
    have hsize : sizeAt buflen (total texts) = buflen - total texts := sizeAt_of_le hb (by omega)
    rw [List.foldl_append, List.foldl_cons, List.foldl_nil, print_eq, hlen, hsize,
      List.flatMap_append, List.flatMap_singleton, ← ih (by omega)]
    exact contents_snprintf (by omega)

theorem makeResponse_snd (buffer : ℕ → UInt8) (buflen : ℕ) (httpcode : String)
    (body : Option String) (contentLength : ℕ) (tm : Tm) :
    (makeResponse buffer buflen httpcode body contentLength tm).2 =
      ((pieces httpcode body contentLength tm).foldl (print buflen) (buffer, 0)).1 := by
  simp only [makeResponse]

/-- **The bytes of a response that fits** are those of its pieces. -/
theorem contents_makeResponse_of_fits {buflen : ℕ} (buffer : ℕ → UInt8) (hb : buflen < 2 ^ 32)
    {httpcode : String} {body : Option String} {contentLength : ℕ} {tm : Tm}
    (hint : total (pieces httpcode body contentLength tm) < 2 ^ 31)
    (hfits : (makeResponse buffer buflen httpcode body contentLength tm).1 ≠ -1) :
    contents (makeResponse buffer buflen httpcode body contentLength tm).2
        (makeResponse buffer buflen httpcode body contentLength tm).1.toNat =
      (pieces httpcode body contentLength tm).flatMap bytes := by
  rw [makeResponse_eq] at hfits
  rw [makeResponse_eq, makeResponse_snd]
  obtain ⟨texts, htexts⟩ : ∃ texts, pieces httpcode body contentLength tm = texts := ⟨_, rfl⟩
  rw [htexts] at hint hfits ⊢
  rw [Nat.mod_eq_of_lt (by omega)] at hfits ⊢
  split_ifs at hfits with hfull
  · exact absurd rfl hfits
  · rw [if_neg hfull, toInt, if_pos hint, Int.toNat_natCast]
    exact contents_foldl_print hb buffer (by omega)

/-- The body, if one is printed. -/
def printed (body : Option String) (contentLength : ℕ) : List UInt8 :=
  if 0 < contentLength then bytes (percentS body) else []

/-- The line with the status. -/
def statusLine (httpcode : String) : String := "HTTP/1.1 " ++ percentS (some httpcode)

/-- The line with the date. -/
def dateLine (tm : Tm) : String :=
  "Date: " ++ daysOfWeek.getD tm.wday "" ++ ", " ++ zeroPadded 2 tm.mday ++ " " ++
    months.getD tm.mon "" ++ " " ++ zeroPadded 4 (tm.year + 1900) ++ " " ++
    zeroPadded 2 tm.hour ++ ":" ++ zeroPadded 2 tm.min ++ ":" ++ zeroPadded 2 tm.sec ++ " GMT"

/-- The line with the length. -/
def lengthLine (contentLength : ℕ) : String :=
  "Content-Length: " ++ toString (toInt contentLength)

/-- **The lines of the fields** of a response. -/
def fieldLines (contentLength : ℕ) (tm : Tm) : List (List UInt8) :=
  [bytes (dateLine tm), bytes (lengthLine contentLength), bytes "Content-Type: text/plain"]

theorem bytes_crlf : bytes "\r\n" = [13, 10] := by decide +kernel

/-- **The pieces of a response** are a head and a body. -/
theorem flatMap_pieces (httpcode : String) (body : Option String) (contentLength : ℕ) (tm : Tm) :
    (pieces httpcode body contentLength tm).flatMap bytes =
      Lines.encode 13 10 (bytes (statusLine httpcode) :: fieldLines contentLength tm)
        (printed body contentLength) := by
  have hgmt : bytes " GMT\r\n" = bytes " GMT" ++ [13, 10] := by decide +kernel
  have hdate : bytes ("Date: " ++ daysOfWeek.getD tm.wday "" ++ ", " ++ zeroPadded 2 tm.mday ++
      " " ++ months.getD tm.mon "" ++ " " ++ zeroPadded 4 (tm.year + 1900) ++ " " ++
      zeroPadded 2 tm.hour ++ ":" ++ zeroPadded 2 tm.min ++ ":" ++ zeroPadded 2 tm.sec ++
      " GMT\r\n") = bytes (dateLine tm) ++ [13, 10] := bytes_append_of_eq hgmt
  have hlength : bytes ("Content-Length: " ++ toString (toInt contentLength) ++ "\r\n") =
      bytes (lengthLine contentLength) ++ [13, 10] :=
    (bytes_append _ _).trans (congrArg _ bytes_crlf)
  have htype : bytes "Content-Type: text/plain\r\n" =
      bytes "Content-Type: text/plain" ++ [13, 10] := by decide +kernel
  have hbody : (if 0 < contentLength then [percentS body] else []).flatMap bytes =
      printed body contentLength := by
    rw [printed]
    split_ifs
    · exact List.flatMap_singleton _ _
    · rfl
  rw [pieces, List.flatMap_append, hbody]
  simp only [statusLine, List.flatMap_cons, List.flatMap_nil, hdate, hlength, htype, bytes_crlf]
  simp only [Lines.encode, fieldLines, List.flatMap_cons, List.flatMap_nil, List.append_assoc,
    List.cons_append, List.nil_append, List.append_nil]

/-- The body is a part of the response. -/
theorem length_printed_le (httpcode : String) (body : Option String) (contentLength : ℕ)
    (tm : Tm) : (printed body contentLength).length ≤
      total (pieces httpcode body contentLength tm) := by
  have hlen : total (pieces httpcode body contentLength tm) =
      ((pieces httpcode body contentLength tm).flatMap bytes).length :=
    List.length_flatMap.symm
  rw [hlen, flatMap_pieces, Lines.encode, List.length_append, List.length_cons, List.length_cons]
  omega

/-! ### The head -/

/-- The text begins with these bytes. -/
def Begins (text : String) (l : List UInt8) : Prop := l <+: bytes text

instance (text : String) (l : List UInt8) : Decidable (Begins text l) :=
  inferInstanceAs (Decidable (_ <+: _))

theorem Begins.append {a b : String} {l : List UInt8} (h : Begins a l) : Begins (a ++ b) l := by
  rw [Begins, bytes_append]
  exact h.trans (List.prefix_append _ _)

theorem begins_dateLine (tm : Tm) : Begins (dateLine tm) [68] := by
  unfold dateLine
  iterate 14 refine Begins.append ?_
  exact ⟨_, rfl⟩

theorem oneLine_dateLine (tm : Tm) : OneLine (dateLine tm) := by
  have hdays : OneLine (daysOfWeek.getD tm.wday "") := oneLine_getD (by decide +kernel) _
  have hmonths : OneLine (months.getD tm.mon "") := oneLine_getD (by decide +kernel) _
  have hblank : OneLine " " := by decide +kernel
  have hcolon : OneLine ":" := by decide +kernel
  have hday : OneLine ("Date: " ++ daysOfWeek.getD tm.wday "" ++ ", " ++ zeroPadded 2 tm.mday) :=
    ((OneLine.append (by decide +kernel) hdays).append (by decide +kernel)).append
      (oneLine_zeroPadded _ _)
  have hyear := ((((hday.append hblank).append hmonths).append hblank).append
    (oneLine_zeroPadded 4 (tm.year + 1900))).append hblank
  have htime := ((((hyear.append (oneLine_zeroPadded 2 tm.hour)).append hcolon).append
    (oneLine_zeroPadded 2 tm.min)).append hcolon).append (oneLine_zeroPadded 2 tm.sec)
  exact htime.append (by decide +kernel)

theorem oneLine_toString_int (x : ℤ) : OneLine (toString x) := by
  cases x with
  | ofNat n => exact oneLine_toString n
  | negSucc n =>
    have hminus : OneLine "-" := by decide +kernel
    exact hminus.append (oneLine_toString (n + 1))

/-- The lines are not empty, and have no end of line in them. -/
theorem forall_mem_head {httpcode : String} (hcode : OneLine httpcode) (contentLength : ℕ)
    (tm : Tm) : ∀ line ∈ bytes (statusLine httpcode) :: fieldLines contentLength tm,
      line ≠ [] ∧ 13 ∉ line := by
  have hstatus : OneLine (statusLine httpcode) :=
    OneLine.append (by decide +kernel) hcode.percentS
  have hlength : OneLine (lengthLine contentLength) :=
    OneLine.append (by decide +kernel) (oneLine_toString_int _)
  have hne : ∀ {text : String} {b : UInt8}, Begins text [b] → bytes text ≠ [] := by
    rintro text b ⟨l, hl⟩ hnil
    rw [hnil] at hl
    cases hl
  have hhttp : Begins "HTTP/1.1 " [72] := by decide +kernel
  have hname : Begins "Content-Length: " [67] := by decide +kernel
  refine List.forall_mem_cons.mpr ⟨⟨hne hhttp.append, hstatus⟩, ?_⟩
  refine List.forall_mem_cons.mpr ⟨⟨hne (begins_dateLine tm), oneLine_dateLine tm⟩, ?_⟩
  refine List.forall_mem_cons.mpr ⟨⟨hne (Begins.append hname), hlength⟩, ?_⟩
  exact List.forall_mem_singleton.mpr (by decide +kernel)

/-- **The length is read back**, if it is not printed as a negative number. -/
theorem lengthField_fieldLines {contentLength : ℕ} (hc : contentLength < 2 ^ 32) (tm : Tm) :
    lengthField (fieldLines contentLength tm) =
      if contentLength < 2 ^ 31 then some contentLength else none := by
  have hdate : ¬bytes "Content-Length: " <+: bytes (dateLine tm) := by
    intro h
    obtain ⟨l, hl⟩ := h
    obtain ⟨m, hm⟩ := begins_dateLine tm
    rw [← hm] at hl
    have hfirst : (67 : UInt8) = 68 := (List.cons_eq_cons.mp hl).1
    exact absurd hfirst (by decide)
  have htype : ¬bytes "Content-Length: " <+: bytes "Content-Type: text/plain" := by
    decide +kernel
  have hlength : bytes (lengthLine contentLength) =
      bytes "Content-Length: " ++ bytes (toString (toInt contentLength)) := bytes_append _ _
  have hdecimal : decimal (bytes (toString (toInt contentLength))) =
      if contentLength < 2 ^ 31 then some contentLength else none := by
    rw [toInt]
    split_ifs
    · exact decimal_toString contentLength
    · obtain ⟨k, hk⟩ : ∃ k : ℕ, (contentLength : ℤ) - 2 ^ 32 = Int.negSucc k :=
        Int.eq_negSucc_of_lt_zero (by omega)
      rw [hk]
      have hbytes : bytes (toString (Int.negSucc k)) = 45 :: bytes (toString (k + 1)) :=
        bytes_append "-" _
      rw [decimal, if_neg]
      rintro ⟨-, hall⟩
      have hminus := List.all_eq_true.mp hall 45 (by rw [hbytes]; exact List.mem_cons_self)
      exact absurd hminus (by decide)
  rw [lengthField, fieldLines, List.findSome?_cons, if_neg hdate]
  dsimp only
  rw [List.findSome?_cons, hlength, if_pos (List.prefix_append _ _), List.drop_left, hdecimal]
  split_ifs
  · rfl
  · dsimp only
    rw [List.findSome?_cons, if_neg htype]
    rfl

/-- **What a client reads of a response**, and of what is behind it. -/
theorem readReply_pieces {httpcode : String} (hcode : OneLine httpcode) (body : Option String)
    {contentLength : ℕ} (hc : contentLength < 2 ^ 32) (tm : Tm) (rest : List UInt8) :
    readReply ((pieces httpcode body contentLength tm).flatMap bytes ++ rest) =
      if contentLength < 2 ^ 31 ∧ contentLength ≤ (printed body contentLength ++ rest).length then
        some (⟨bytes (statusLine httpcode), fieldLines contentLength tm,
          (printed body contentLength ++ rest).take contentLength⟩,
          (printed body contentLength ++ rest).drop contentLength)
      else none := by
  have henc : (pieces httpcode body contentLength tm).flatMap bytes ++ rest =
      Lines.encode 13 10 (bytes (statusLine httpcode) :: fieldLines contentLength tm)
        (printed body contentLength ++ rest) := by
    rw [flatMap_pieces, Lines.encode, Lines.encode, List.append_assoc, List.cons_append,
      List.cons_append]
  rw [henc, readReply, Lines.read_encode (forall_mem_head hcode contentLength tm)]
  dsimp only
  rw [lengthField_fieldLines hc]
  by_cases hlt : contentLength < 2 ^ 31
  · rw [if_pos hlt]
    simp only [hlt, true_and]
  · rw [if_neg hlt, if_neg fun h => hlt h.1]

/-- Where the length is that of the body, the response is read back. -/
theorem readReply_of_length {httpcode : String} (hcode : OneLine httpcode) {body : Option String}
    {contentLength : ℕ} {tm : Tm} (h : contentLength = (printed body contentLength).length)
    (hint : total (pieces httpcode body contentLength tm) < 2 ^ 31) (rest : List UInt8) :
    readReply ((pieces httpcode body contentLength tm).flatMap bytes ++ rest) =
      some (⟨bytes (statusLine httpcode), fieldLines contentLength tm,
        printed body contentLength⟩, rest) := by
  have hlt : contentLength < 2 ^ 31 := h.trans_lt ((length_printed_le _ _ _ _).trans_lt hint)
  have hle : contentLength ≤ (printed body contentLength ++ rest).length := by
    rw [List.length_append]
    omega
  rw [readReply_pieces hcode body (hlt.trans (by decide)), if_pos ⟨hlt, hle⟩,
    List.take_left' h.symm, List.drop_left' h.symm]

/-! ### The responses of the servers -/

/-- The fields of `struct tm` have as many digits as are printed of them. -/
structure Tm.Proper (tm : Tm) : Prop where
  mday_lt : tm.mday < 100
  hour_lt : tm.hour < 100
  min_lt : tm.min < 100
  sec_lt : tm.sec < 100
  year_nonneg : 0 ≤ tm.year + 1900
  year_lt : tm.year + 1900 < 10000

/-- The text has no more than `n` bytes. -/
def AtMost (text : String) (n : ℕ) : Prop := (bytes text).length ≤ n

instance (text : String) (n : ℕ) : Decidable (AtMost text n) :=
  inferInstanceAs (Decidable (_ ≤ _))

theorem AtMost.append {a b : String} {m n : ℕ} (ha : AtMost a m) (hb : AtMost b n) :
    AtMost (a ++ b) (m + n) := by
  rw [AtMost, bytes_append, List.length_append]
  exact Nat.add_le_add ha hb

theorem length_bytes (text : String) : (bytes text).length = text.length := by
  rw [bytes, List.length_map, String.length_toList]

theorem atMost_getD {texts : List String} {n : ℕ} (h : ∀ text ∈ texts, AtMost text n) (i : ℕ) :
    AtMost (texts.getD i "") n := by
  rw [List.getD_eq_getElem?_getD]
  cases hget : texts[i]? with
  | none => exact Nat.zero_le _
  | some text => exact h text (List.mem_of_getElem? hget)

theorem atMost_toString {n k : ℕ} (hn : 0 < n) (h : k < 10 ^ n) : AtMost (toString k) n := by
  rw [AtMost, length_bytes, Nat.toString_eq_repr]
  exact (Nat.length_repr_le_iff hn).mpr h

/-- A number that has no more digits than it is padded to. -/
theorem atMost_zeroPadded {n k : ℕ} (hn : 0 < n) (h : k < 10 ^ n) : AtMost (zeroPadded n k) n := by
  have hdigits : (toString k).length ≤ n := (length_bytes _).symm.trans_le (atMost_toString hn h)
  have hnonneg : ¬(k : ℤ) < 0 := by omega
  have hempty : ("" : String).length = 0 := rfl
  rw [zeroPadded, if_neg hnonneg, Int.natAbs_natCast, hempty, Nat.sub_zero]
  have hzeros : AtMost (String.ofList (List.replicate (n - (toString k).length) '0'))
      (n - (toString k).length) := by
    rw [AtMost, length_bytes, String.length_ofList, List.length_replicate]
  have hnone : AtMost "" 0 := by decide
  have hnumber : AtMost (toString k) (toString k).length := (length_bytes _).le
  exact ((hnone.append hzeros).append hnumber).trans (by omega)

/-- **The date takes no more than 35 bytes.** -/
theorem Tm.Proper.dateLine {tm : Tm} (h : tm.Proper) : AtMost (dateLine tm) 35 := by
  obtain ⟨year, hyear⟩ := Int.eq_ofNat_of_zero_le h.year_nonneg
  have hlt := h.year_lt
  have hday : AtMost (daysOfWeek.getD tm.wday "") 3 := atMost_getD (by decide +kernel) _
  have hmonth : AtMost (months.getD tm.mon "") 3 := atMost_getD (by decide +kernel) _
  have hdigits : AtMost (zeroPadded 4 (tm.year + 1900)) 4 := by
    rw [hyear]
    exact atMost_zeroPadded (by decide) (by omega)
  have htwo : ∀ k < 100, AtMost (zeroPadded 2 (k : ℕ)) 2 := fun k hk =>
    atMost_zeroPadded (by decide) hk
  have hblank : AtMost " " 1 := by decide +kernel
  have hcolon : AtMost ":" 1 := by decide +kernel
  have hdate : AtMost "Date: " 6 := by decide +kernel
  have hcomma : AtMost ", " 2 := by decide +kernel
  have hgmt : AtMost " GMT" 4 := by decide +kernel
  have hfirst := (((hdate.append hday).append hcomma).append (htwo _ h.mday_lt)).append hblank
  have hsecond := (((hfirst.append hmonth).append hblank).append hdigits).append hblank
  have hthird := ((((hsecond.append (htwo _ h.hour_lt)).append hcolon).append
    (htwo _ h.min_lt)).append hcolon).append (htwo _ h.sec_lt)
  exact hthird.append hgmt

/-- The status of a response. -/
def Verdict.status : Verdict → String
  | .ok | .quit => "200 OK"
  | .notFound => "404 Not Found"
  | .badRequest => "400 Bad Request"
  | .tooLarge => "413 Content Too Large"
  | .failure => "500 Internal Server Error"

/-- The body of a response, if it has one. -/
def Verdict.body : Verdict → Option String
  | .ok => some responseBody
  | .quit => some "OK bye...\n"
  | .failure => some "I/O failure"
  | .notFound | .badRequest | .tooLarge => none

/-- The bytes of the body. -/
def Verdict.text (v : Verdict) : List UInt8 := v.body.toList.flatMap bytes

/-- **What a client understands** of a response. -/
def Verdict.reply (tm : Tm) (v : Verdict) : Reply :=
  ⟨bytes ("HTTP/1.1 " ++ v.status), fieldLines v.text.length tm, v.text⟩

theorem Verdict.text_of_body {v : Verdict} {text : String} (h : v.body = some text) :
    v.text = bytes text := by
  rw [Verdict.text, h]
  exact List.flatMap_singleton _ _

theorem Verdict.length_text_le (v : Verdict) : v.text.length ≤ 2054 := by
  cases v with
  | ok => rw [Verdict.text_of_body rfl, length_responseBody]
  | quit | failure => decide +kernel
  | notFound | badRequest | tooLarge => exact Nat.zero_le _

/-- The body is printed as it is, if there is one. -/
theorem Verdict.printed_eq (v : Verdict) : printed v.body v.text.length = v.text := by
  have hsome : ∀ {text : String}, v.body = some text → NoNul text → bytes text ≠ [] →
      printed v.body v.text.length = v.text := by
    intro text hbody hnul hne
    rw [Verdict.text_of_body hbody, hbody, printed, if_pos (List.length_pos_of_ne_nil hne),
      hnul.percentS]
  cases v with
  | ok =>
    refine hsome rfl noNul_responseBody (List.ne_nil_of_length_pos ?_)
    rw [length_responseBody]
    decide
  | quit | failure => exact hsome rfl (by decide +kernel) (by decide +kernel)
  | notFound | badRequest | tooLarge => rfl

/-- And so is the status. -/
theorem Verdict.statusLine_eq (v : Verdict) :
    bytes (statusLine v.status) = bytes ("HTTP/1.1 " ++ v.status) := by
  have hnul : NoNul v.status := by cases v <;> decide +kernel
  rw [statusLine, bytes_append, hnul.percentS, ← bytes_append]

theorem Verdict.response_eq (buffer : ℕ → UInt8) (buflen : ℕ) (tm : Tm) (v : Verdict) :
    v.response buffer buflen tm =
      makeResponse buffer buflen v.status v.body v.text.length tm := by
  cases v with
  | ok | quit | failure =>
    rw [Verdict.text_of_body rfl]
    rfl
  | notFound | badRequest | tooLarge => rfl

end Http

open Http

/-- **A response is read back exactly if its length is that of its body**: where
`make_response` says that a response fits, a client finds it in the bytes of the response,
with whatever bytes come behind them, exactly if `content_length` is the number of bytes of
the body that is printed. The status is one line, and the response is shorter than the
`int` in which its length is returned can tell. -/
theorem makeResponse_readReply_iff (buffer : ℕ → UInt8) (buflen : ℕ) (hb : buflen < 2 ^ 32)
    (httpcode : String) (hcode : OneLine httpcode) (body : Option String) (contentLength : ℕ)
    (hc : contentLength < 2 ^ 32) (tm : Tm)
    (hint : total (pieces httpcode body contentLength tm) < 2 ^ 31)
    (hfits : (makeResponse buffer buflen httpcode body contentLength tm).1 ≠ -1) :
    (∀ rest, readReply (contents (makeResponse buffer buflen httpcode body contentLength tm).2
        (makeResponse buffer buflen httpcode body contentLength tm).1.toNat ++ rest) =
      some (⟨bytes (statusLine httpcode), fieldLines contentLength tm,
        printed body contentLength⟩, rest)) ↔
      contentLength = (printed body contentLength).length := by
  rw [contents_makeResponse_of_fits buffer hb hint hfits]
  constructor
  · intro h
    have hall := h []
    rw [readReply_pieces hcode body hc, List.append_nil] at hall
    obtain ⟨⟨-, hle⟩, heq⟩ := Option.ite_none_right_eq_some.mp hall
    have hrest := (Prod.mk.inj (Option.some.inj heq)).2
    exact hle.antisymm (List.drop_eq_nil_iff.mp hrest)
  · intro h rest
    exact readReply_of_length hcode h hint rest

/-- A bad request is answered, and the beginning of the next response is behind the answer. -/
theorem makeResponse_readReply_iff_badRequest :
    readReply (contents (makeResponse (fun _ => 0) 4096 "400 Bad Request" none 0 midnight).2
        (makeResponse (fun _ => 0) 4096 "400 Bad Request" none 0 midnight).1.toNat ++
          bytes "HTTP/1.1 ") =
      some (⟨bytes (statusLine "400 Bad Request"), fieldLines 0 midnight, printed none 0⟩,
        bytes "HTTP/1.1 ") :=
  (makeResponse_readReply_iff (fun _ => 0) 4096 (by decide) "400 Bad Request" (by decide +kernel)
    none 0 (by decide) midnight (by decide +kernel) (by decide +kernel)).mpr rfl _

namespace Http

/-- **A response takes no more than 2200 bytes.** -/
theorem Verdict.total_pieces_le {tm : Tm} (htm : tm.Proper) (v : Verdict) :
    total (pieces v.status v.body v.text.length tm) ≤ 2200 := by
  have htext := v.length_text_le
  have hstatus : AtMost v.status 25 := by cases v <;> decide +kernel
  have hhttp : AtMost "HTTP/1.1 " 9 := by decide +kernel
  have hname : AtMost "Content-Length: " 16 := by decide +kernel
  have hlength : AtMost (lengthLine v.text.length) 20 := by
    rw [lengthLine, toInt, if_pos (by omega)]
    exact hname.append (atMost_toString (n := 4) (by decide) (by omega))
  have htype : AtMost "Content-Type: text/plain" 24 := by decide +kernel
  have hline := hhttp.append hstatus
  have hdate := htm.dateLine
  have hlen : total (pieces v.status v.body v.text.length tm) =
      ((pieces v.status v.body v.text.length tm).flatMap bytes).length :=
    List.length_flatMap.symm
  rw [AtMost] at hline hlength htype hdate
  rw [hlen, flatMap_pieces, v.statusLine_eq, v.printed_eq, Lines.encode, fieldLines]
  simp only [List.flatMap_cons, List.flatMap_nil, List.length_append, List.length_cons,
    List.length_nil]
  omega

/-- **A response fits** in a buffer of more than 2200 bytes. -/
theorem Verdict.response_fst {tm : Tm} (htm : tm.Proper) {buflen : ℕ} (hroom : 2200 < buflen)
    (buffer : ℕ → UInt8) (v : Verdict) :
    (v.response buffer buflen tm).1 = total (pieces v.status v.body v.text.length tm) := by
  have htotal := v.total_pieces_le htm
  rw [v.response_eq]
  refine (makeResponse_fst buffer buflen v.status v.body v.text.length tm rfl ?_).trans
    (if_neg ?_)
  · exact htotal.trans_lt (by decide)
  · exact not_le.mpr (htotal.trans_lt hroom)

/-- **Its bytes say the reply.** -/
theorem Verdict.response_text {tm : Tm} (htm : tm.Proper) {buflen : ℕ} (hb : buflen < 2 ^ 32)
    (hroom : 2200 < buflen) (buffer : ℕ → UInt8) (v : Verdict) :
    Messages.Says readReply
      (contents (v.response buffer buflen tm).2 (v.response buffer buflen tm).1.toNat)
      (v.reply tm) := by
  intro rest
  have htotal := v.total_pieces_le htm
  have hresult := v.response_fst htm hroom buffer
  rw [v.response_eq] at hresult ⊢
  have hbytes := contents_makeResponse_of_fits buffer hb (htotal.trans_lt (by decide))
    (by rw [hresult]; omega)
  have hcode : OneLine v.status := by cases v <;> decide +kernel
  have hread := readReply_of_length hcode (congrArg List.length v.printed_eq).symm
    (htotal.trans_lt (by decide)) rest
  rw [v.printed_eq, v.statusLine_eq] at hread
  rw [hbytes, hread]
  rfl

/-- A response is complete, and read back. -/
theorem Verdict.response_read (v : Verdict) (buffer : ℕ → UInt8) {buflen : ℕ}
    (hb : buflen < 2 ^ 32) (hroom : 2200 < buflen) {tm : Tm} (htm : tm.Proper) :
    ∃ n : ℕ, (v.response buffer buflen tm).1 = n ∧ ∀ rest,
      readReply (contents (v.response buffer buflen tm).2 n ++ rest) = some (v.reply tm, rest) := by
  have hresult := v.response_fst htm hroom buffer
  refine ⟨_, hresult, fun rest => ?_⟩
  have htext := v.response_text htm hb hroom buffer rest
  rwa [hresult, Int.toNat_natCast] at htext

end Http

end Waeio
