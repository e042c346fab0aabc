import Mathlib.Data.Int.Notation
import Waeio.Lib.Firsts

/-!
# The generated `host_strerror`

`utils/hostgen.c` is run on the platform the host is built for, and prints a header and a
source file from a table of the names of the error codes: the header defines a macro
`HOST_EPERM` for each name, and the source the function `host_strerror`, whose `switch` has
the message of each code under the first name that has it. Which codes the names stand for,
and what `strerror` says of them, is up to the platform; the models have both as arguments.

A C compiler takes a `switch` only if its labels have different values. That they have, and
that each code has its message, holds as soon as the generator gets to its end
(`Waeio.Hostgen.coversOnce_of_emitErrnoC`). But it keeps the codes it has printed in an
array with an element for each *name*, which the *codes* are indices of: it leaves the array
exactly if one of the codes is not below the number of names
(`Waeio.Hostgen.hostgen_coversOnce_iff`).
-/

namespace Waeio

namespace Hostgen

open Firsts (firsts)

/-! ### The table -/

/-- The names of the table. -/
inductive Errno
  | EPERM | ENOENT | ESRCH | EINTR | EIO | ENXIO | E2BIG | ENOEXEC | EBADF | ECHILD | EAGAIN
  | ENOMEM | EACCES | EFAULT | ENOTBLK | EBUSY | EEXIST | EXDEV | ENODEV | ENOTDIR | EISDIR
  | EINVAL | ENFILE | EMFILE | ENOTTY | ETXTBSY | EFBIG | ENOSPC | ESPIPE | EROFS | EMLINK | EPIPE
  | EDOM | ERANGE | EDEADLK | ENAMETOOLONG | ENOLCK | ENOSYS | ENOTEMPTY | ELOOP | EWOULDBLOCK
  | ENOMSG | EIDRM | ECHRNG | EL2NSYNC | EL3HLT | EL3RST | ELNRNG | EUNATCH | ENOCSI | EL2HLT
  | EBADE | EBADR | EXFULL | ENOANO | EBADRQC | EBADSLT | EDEADLOCK | EBFONT | ENOSTR | ENODATA
  | ETIME | ENOSR | ENONET | ENOPKG | EREMOTE | ENOLINK | EADV | ESRMNT | ECOMM | EPROTO
  | EMULTIHOP | EDOTDOT | EBADMSG | EOVERFLOW | ENOTUNIQ | EBADFD | EREMCHG | ELIBACC | ELIBBAD
  | ELIBSCN | ELIBMAX | ELIBEXEC | EILSEQ | ERESTART | ESTRPIPE | EUSERS | ENOTSOCK | EDESTADDRREQ
  | EMSGSIZE | EPROTOTYPE | ENOPROTOOPT | EPROTONOSUPPORT | ESOCKTNOSUPPORT | EOPNOTSUPP
  | EPFNOSUPPORT | EAFNOSUPPORT | EADDRINUSE | EADDRNOTAVAIL | ENETDOWN | ENETUNREACH | ENETRESET
  | ECONNABORTED | ECONNRESET | ENOBUFS | EISCONN | ENOTCONN | ESHUTDOWN | ETOOMANYREFS
  | ETIMEDOUT | ECONNREFUSED | EHOSTDOWN | EHOSTUNREACH | EALREADY | EINPROGRESS | ESTALE
  | EUCLEAN | ENOTNAM | ENAVAIL | EISNAM | EREMOTEIO | EDQUOT | ENOMEDIUM | EMEDIUMTYPE
  | ECANCELED | ENOKEY | EKEYEXPIRED | EKEYREVOKED | EKEYREJECTED | EOWNERDEAD | ENOTRECOVERABLE
  | ERFKILL | EHWPOISON | ENOTSUP
  deriving DecidableEq

/-- `struct errno_item` -/
structure ErrnoItem where
  name : Errno
  /-- A `uint32_t`. -/
  code : BitVec 32

/-- `ERRNO_ITEMS` -/
def ERRNO_ITEMS : ℕ := 134

/-- The names, in the order of the table. -/
def errnoNames : List Errno :=
  [.EPERM, .ENOENT, .ESRCH, .EINTR, Errno.EIO, Errno.ENXIO, .E2BIG, .ENOEXEC, .EBADF, .ECHILD,
    .EAGAIN, .ENOMEM, .EACCES, .EFAULT, .ENOTBLK, .EBUSY, .EEXIST, .EXDEV, .ENODEV, .ENOTDIR,
    .EISDIR, .EINVAL, .ENFILE, .EMFILE, .ENOTTY, .ETXTBSY, .EFBIG, .ENOSPC, .ESPIPE, .EROFS,
    .EMLINK, .EPIPE, .EDOM, .ERANGE, .EDEADLK, .ENAMETOOLONG, .ENOLCK, .ENOSYS, .ENOTEMPTY, .ELOOP,
    .EWOULDBLOCK, .ENOMSG, .EIDRM, .ECHRNG, .EL2NSYNC, .EL3HLT, .EL3RST, .ELNRNG, .EUNATCH, .ENOCSI,
    .EL2HLT, .EBADE, .EBADR, .EXFULL, .ENOANO, .EBADRQC, .EBADSLT, .EDEADLOCK, .EBFONT, .ENOSTR,
    .ENODATA, .ETIME, .ENOSR, .ENONET, .ENOPKG, .EREMOTE, .ENOLINK, .EADV, .ESRMNT, .ECOMM, .EPROTO,
    .EMULTIHOP, .EDOTDOT, .EBADMSG, .EOVERFLOW, .ENOTUNIQ, .EBADFD, .EREMCHG, .ELIBACC, .ELIBBAD,
    .ELIBSCN, .ELIBMAX, .ELIBEXEC, .EILSEQ, .ERESTART, .ESTRPIPE, .EUSERS, .ENOTSOCK, .EDESTADDRREQ,
    .EMSGSIZE, .EPROTOTYPE, .ENOPROTOOPT, .EPROTONOSUPPORT, .ESOCKTNOSUPPORT, .EOPNOTSUPP,
    .EPFNOSUPPORT, .EAFNOSUPPORT, .EADDRINUSE, .EADDRNOTAVAIL, .ENETDOWN, .ENETUNREACH, .ENETRESET,
    .ECONNABORTED, .ECONNRESET, .ENOBUFS, .EISCONN, .ENOTCONN, .ESHUTDOWN, .ETOOMANYREFS,
    .ETIMEDOUT, .ECONNREFUSED, .EHOSTDOWN, .EHOSTUNREACH, .EALREADY, .EINPROGRESS, .ESTALE,
    .EUCLEAN, .ENOTNAM, .ENAVAIL, .EISNAM, Errno.EREMOTEIO, .EDQUOT, .ENOMEDIUM, .EMEDIUMTYPE,
    .ECANCELED, .ENOKEY, .EKEYEXPIRED, .EKEYREVOKED, .EKEYREJECTED, .EOWNERDEAD, .ENOTRECOVERABLE,
    .ERFKILL, .EHWPOISON, .ENOTSUP]

example : errnoNames.length = ERRNO_ITEMS := rfl

/-- **`errno_items`**, where `platform` is what `errno.h` defines the names as. -/
def errnoItems (platform : Errno → BitVec 32) : List ErrnoItem :=
  errnoNames.map fun name => ⟨name, platform name⟩

/-! ### What is printed -/

/-- A line of a generated file. -/
inductive Line
  /-- A text that depends on nothing. -/
  | text (s : String) : Line
  /-- `#define HOST_%s %d` -/
  | define (name : Errno) (value : ℤ) : Line
  /-- `case HOST_%s:` -/
  | label (name : Errno) : Line
  /-- `default:` -/
  | defaultLabel : Line
  /-- `return "%s";` -/
  | ret (message : String) : Line

/-- `emit_header` -/
def emitHeader : List Line :=
  [.text "// DO NOT EDIT. This file is automatically generated by the build process!"]

/-- `emit_hguard` -/
def emitHguard (h : String) : List Line := [.text ("#ifndef " ++ h), .text ("#define " ++ h)]

/-- `emit_hend` -/
def emitHend : List Line := [.text "#endif"]

/-- **`emit_errno_h`** -/
def emitErrnoH (items : List ErrnoItem) : List Line :=
  emitHeader ++ emitHguard "WAEIO_HOST_ERRNO_H" ++
    [.text "\n#include <stdint.h>\n", .text "extern int32_t host_errno;\n",
      .text "const char* host_strerror(int32_t);\n"] ++
    items.map (fun item => .define item.name item.code.toInt) ++ [.text ""] ++ emitHend

/-- The loop of `emit_errno_c` over the rest of the table. It has no result where it leaves
the array `seen`. -/
def emitCases (strerror : ℤ → String) : List ErrnoItem → (seen : List Bool) → Option (List Line)
  | [], _ => some []
  | item :: items, seen =>
    match seen[item.code.toNat]? with
    | none => none
    | some true => emitCases strerror items seen
    | some false =>
      (emitCases strerror items (seen.set item.code.toNat true)).map fun lines =>
        .label item.name :: .ret (strerror item.code.toInt) :: lines

/-- **`emit_errno_c`** -/
def emitErrnoC (strerror : ℤ → String) (items : List ErrnoItem) : Option (List Line) :=
  (emitCases strerror items (List.replicate ERRNO_ITEMS false)).map fun lines =>
    emitHeader ++
      [.text "#include <host/errno.h>", .text "#include <stdint.h>\n",
        .text "int32_t host_errno = 0;\n", .text "const char* host_strerror(int32_t e) \x7b",
        .text "  switch (e) \x7b"] ++
      lines ++ [.defaultLabel, .ret "UNKNOWN ERROR", .text "  \x7d", .text "\x7d"]

/-! ### What the files mean -/

/-- A case of the `switch`. -/
structure Case where
  name : Errno
  message : String

/-- What a line of the header says about the macro of a name. -/
def Line.valueOf (name : Errno) : Line → Option ℤ
  | .define n v => if n = name then some v else none
  | .text _ | .label _ | .defaultLabel | .ret _ => none

/-- The value of a macro `HOST_%s`. -/
def value (header : List Line) (name : Errno) : Option ℤ := header.findSome? (Line.valueOf name)

/-- The cases of the `switch`. -/
def cases : List Line → List Case
  | [] => []
  | .label name :: .ret message :: lines => ⟨name, message⟩ :: cases lines
  | _ :: lines => cases lines

/-- What it returns by default. -/
def fallback : List Line → Option String
  | [] => none
  | .defaultLabel :: .ret message :: _ => some message
  | _ :: lines => fallback lines

/-- **`host_strerror`**, as the two files define it. -/
def hostStrerror (header source : List Line) (e : ℤ) : Option String :=
  match (cases source).find? fun c => value header c.name = some e with
  | some c => some c.message
  | none => fallback source

/-! ### What is claimed of them -/

/-- **Each code is covered once**: the labels have different values, and each code of the
table is that of one label, with its message. -/
structure CoversOnce (strerror : ℤ → String) (items : List ErrnoItem)
    (header source : List Line) : Prop where
  defined : ∀ c ∈ cases source, value header c.name ≠ none
  distinct : ((cases source).map fun c => value header c.name).Nodup
  once : ∀ item ∈ items, ∃ c,
    (cases source).filter (fun c => value header c.name = some item.code.toInt) = [c] ∧
      c.message = strerror item.code.toInt

/-! ### The header -/

variable {strerror : ℤ → String} {items : List ErrnoItem} {item : ErrnoItem}
  {lines source : List Line} {seen : List Bool} {platform : Errno → BitVec 32}

@[simp] theorem value_text_cons (s : String) (lines : List Line) (name : Errno) :
    value (.text s :: lines) name = value lines name := rfl

@[simp] theorem cases_text_cons (s : String) (lines : List Line) :
    cases (.text s :: lines) = cases lines := rfl

@[simp] theorem fallback_text_cons (s : String) (lines : List Line) :
    fallback (.text s :: lines) = fallback lines := rfl

/-- **A macro has the code of its name** as a value, as no name is there twice. -/
theorem value_defines (hnames : (items.map ErrnoItem.name).Nodup) (h : item ∈ items) :
    value ((items.map fun item => .define item.name item.code.toInt) ++ lines) item.name =
      some item.code.toInt := by
  induction items with
  | nil => exact absurd h List.not_mem_nil
  | cons first items ih =>
    obtain ⟨hfirst, hnames⟩ := List.nodup_cons.mp hnames
    rw [List.map_cons, List.cons_append, value, List.findSome?_cons, Line.valueOf]
    rcases List.mem_cons.mp h with rfl | h
    · rw [if_pos rfl]
    · have hne : first.name ≠ item.name := fun heq => hfirst (heq ▸ List.mem_map_of_mem h)
      rw [if_neg hne]
      exact ih hnames h

theorem value_emitErrnoH (hnames : (items.map ErrnoItem.name).Nodup) (h : item ∈ items) :
    value (emitErrnoH items) item.name = some item.code.toInt := by
  simp only [emitErrnoH, emitHeader, emitHguard, List.append_assoc, List.cons_append,
    List.nil_append, value_text_cons]
  exact value_defines hnames h

/-! ### The source -/

/-- What the loop prints, if it does not leave the array. -/
theorem emitCases_eq (h : ∀ item ∈ items, item.code.toNat < seen.length) :
    emitCases strerror items seen =
      some ((firsts (fun item => item.code.toNat) (fun i => seen.getD i false) items).flatMap
        fun item => [.label item.name, .ret (strerror item.code.toInt)]) := by
  induction items generalizing seen with
  | nil => rfl
  | cons item items ih =>
    obtain ⟨hitem, hrest⟩ := List.forall_mem_cons.mp h
    rw [emitCases, firsts, List.getD_eq_getElem?_getD, List.getElem?_eq_getElem hitem]
    cases seen[item.code.toNat] with
    | true => exact ih hrest
    | false =>
      -- the flag of the code is set, as its key is seen from here on
      have hset := @ih (seen.set item.code.toNat true) (by rwa [List.length_set])
      rw [Firsts.getD_set hitem] at hset
      dsimp only
      rw [hset]
      rfl

/-- **It does not leave the array** if it gets to its end. -/
theorem lt_of_emitCases (h : emitCases strerror items seen = some lines) :
    ∀ item ∈ items, item.code.toNat < seen.length := by
  induction items generalizing seen lines with
  | nil => exact fun item hitem => absurd hitem List.not_mem_nil
  | cons item items ih =>
    rw [emitCases] at h
    refine List.forall_mem_cons.mpr ?_
    rcases hseen : seen[item.code.toNat]? with _ | _ | _ <;> rw [hseen] at h <;> dsimp only at h
    · exact absurd h nofun
    · obtain ⟨rest, hrest, -⟩ := Option.map_eq_some_iff.mp h
      refine ⟨(List.getElem?_eq_some_iff.mp hseen).1, ?_⟩
      rw [← List.length_set]
      exact ih hrest
    · exact ⟨(List.getElem?_eq_some_iff.mp hseen).1, ih h⟩

/-- **The generator gets to its end** exactly if each code is below the number of names. -/
theorem exists_emitErrnoC_iff :
    (∃ source, emitErrnoC strerror items = some source) ↔
      ∀ item ∈ items, item.code.toNat < ERRNO_ITEMS := by
  have hlength : (List.replicate ERRNO_ITEMS false).length = ERRNO_ITEMS := List.length_replicate
  constructor
  · rintro ⟨source, h⟩
    obtain ⟨lines, hlines, -⟩ := Option.map_eq_some_iff.mp h
    rw [← hlength]
    exact lt_of_emitCases hlines
  · intro h
    rw [← hlength] at h
    exact ⟨_, by rw [emitErrnoC, emitCases_eq h, Option.map_some]⟩

/-- The cases that are printed. -/
theorem cases_flatMap (strerror : ℤ → String) (items : List ErrnoItem) (lines : List Line) :
    cases ((items.flatMap fun item => [.label item.name, .ret (strerror item.code.toInt)]) ++
        lines) =
      (items.map fun item => ⟨item.name, strerror item.code.toInt⟩) ++ cases lines := by
  induction items with
  | nil => rfl
  | cons item items ih =>
    rw [List.flatMap_cons, List.append_assoc, List.cons_append, List.cons_append, List.nil_append,
      cases, ih, List.map_cons, List.cons_append]

theorem fallback_flatMap (strerror : ℤ → String) (items : List ErrnoItem) (lines : List Line) :
    fallback ((items.flatMap fun item => [.label item.name, .ret (strerror item.code.toInt)]) ++
        lines) = fallback lines := by
  induction items with
  | nil => rfl
  | cons item items ih =>
    rw [List.flatMap_cons, List.append_assoc]
    exact ih

/-- The first item of each code. -/
def firstCodes (items : List ErrnoItem) : List ErrnoItem :=
  firsts (fun item => item.code.toNat) (fun _ => false) items

/-- **What `emit_errno_c` prints**, if it does not leave the array: a case for the first name
of each code, and a default. -/
theorem emitErrnoC_cases (h : emitErrnoC strerror items = some source) :
    cases source = (firstCodes items).map (fun item => ⟨item.name, strerror item.code.toInt⟩) ∧
      fallback source = some "UNKNOWN ERROR" := by
  obtain ⟨lines, hlines, rfl⟩ := Option.map_eq_some_iff.mp h
  have hflags : (fun i => (List.replicate ERRNO_ITEMS false).getD i false) = fun _ => false := by
    funext i
    rw [List.getD_eq_getElem?_getD, List.getElem?_replicate]
    split_ifs <;> rfl
  rw [emitCases_eq (lt_of_emitCases hlines), hflags] at hlines
  obtain rfl := Option.some.inj hlines
  constructor
  · simp only [emitHeader, List.cons_append, List.nil_append, cases_text_cons, cases_flatMap]
    exact List.append_nil _
  · simp only [emitHeader, List.cons_append, List.nil_append, fallback_text_cons, fallback_flatMap]
    rfl

/-! ### The codes are covered -/

theorem value_firstCodes (hnames : (items.map ErrnoItem.name).Nodup)
    (h : item ∈ firstCodes items) :
    value (emitErrnoH items) item.name = some item.code.toInt :=
  value_emitErrnoH hnames (Firsts.mem_of_mem_firsts h).1

/-- **The label of a code of the table** is the only one with its value, and returns its
message. -/
theorem filter_cases (hnames : (items.map ErrnoItem.name).Nodup)
    (h : emitErrnoC strerror items = some source) (hitem : item ∈ items) :
    ∃ name,
      (cases source).filter (fun c => value (emitErrnoH items) c.name = some item.code.toInt) =
        [⟨name, strerror item.code.toInt⟩] := by
  obtain ⟨first, hfirst, hcode⟩ : ∃ first ∈ firstCodes items,
      first.code.toNat = item.code.toNat := Firsts.exists_mem_firsts hitem rfl
  have honly := Firsts.filter_key_eq (Firsts.nodup_firsts _ _ items) hfirst
  obtain heq : first.code = item.code := BitVec.eq_of_toNat_eq hcode
  refine ⟨first.name, ?_⟩
  rw [(emitErrnoC_cases h).1, List.filter_map, ← heq]
  -- two labels have the same value exactly if they are for the same code
  have hkey : (firstCodes items).filter ((fun c : Case =>
        decide (value (emitErrnoH items) c.name = some first.code.toInt)) ∘
          fun item => ⟨item.name, strerror item.code.toInt⟩) =
      (firstCodes items).filter fun item => item.code.toNat = first.code.toNat := by
    refine List.filter_congr fun other hother => ?_
    rw [Function.comp_apply, value_firstCodes hnames hother, decide_eq_decide, Option.some_inj,
      BitVec.toInt_inj, BitVec.toNat_eq]
  rw [hkey, firstCodes, honly, List.map_singleton]

/-- **As soon as the generator gets to its end**, each code is covered once. -/
theorem coversOnce_of_emitErrnoC (hnames : (items.map ErrnoItem.name).Nodup)
    (h : emitErrnoC strerror items = some source) :
    CoversOnce strerror items (emitErrnoH items) source := by
  obtain ⟨hcases, -⟩ := emitErrnoC_cases h
  refine ⟨fun c hc => ?_, ?_, fun item hitem => ?_⟩
  · rw [hcases] at hc
    obtain ⟨item, hitem, rfl⟩ := List.mem_map.mp hc
    rw [value_firstCodes hnames hitem]
    exact nofun
  · have hdistinct := List.pairwise_map.mp
      (Firsts.nodup_firsts (fun item : ErrnoItem => item.code.toNat) (fun _ => false) items)
    have hvalues : (firstCodes items).map ((fun c : Case => value (emitErrnoH items) c.name) ∘
          fun item => ⟨item.name, strerror item.code.toInt⟩) =
        (firstCodes items).map fun item => some item.code.toInt :=
      List.map_congr_left fun item hitem => value_firstCodes hnames hitem
    rw [hcases, List.map_map, hvalues]
    exact List.pairwise_map.mpr (hdistinct.imp fun hne heq =>
      hne (congrArg BitVec.toNat (BitVec.toInt_inj.mp (Option.some.inj heq))))
  · obtain ⟨name, hfilter⟩ := filter_cases hnames h hitem
    exact ⟨_, hfilter, rfl⟩

/-- **The generated function** returns the message of a code of the table, and nothing in
particular for another. -/
theorem hostStrerror_eq (hnames : (items.map ErrnoItem.name).Nodup)
    (h : emitErrnoC strerror items = some source) (e : ℤ) :
    hostStrerror (emitErrnoH items) source e =
      some (if ∃ item ∈ items, item.code.toInt = e then strerror e else "UNKNOWN ERROR") := by
  rw [hostStrerror, ← List.head?_filter]
  split_ifs with hcode
  · obtain ⟨item, hitem, rfl⟩ := hcode
    obtain ⟨name, hfilter⟩ := filter_cases hnames h hitem
    rw [hfilter]
    rfl
  · have hnone : (cases source).filter
        (fun c => value (emitErrnoH items) c.name = some e) = [] := by
      refine List.filter_eq_nil_iff.mpr fun c hc hvalue => hcode ?_
      rw [(emitErrnoC_cases h).1] at hc
      obtain ⟨item, hitem, rfl⟩ := List.mem_map.mp hc
      rw [decide_eq_true_eq, value_firstCodes hnames hitem] at hvalue
      exact ⟨item, (Firsts.mem_of_mem_firsts hitem).1, Option.some.inj hvalue⟩
    rw [hnone]
    exact (emitErrnoC_cases h).2

/-! ### The table of `hostgen` -/

/-- No name is there twice. -/
theorem nodup_errnoItems (platform : Errno → BitVec 32) :
    ((errnoItems platform).map ErrnoItem.name).Nodup := by
  have hnames : errnoNames.Nodup := by
    -- the table has the names in the order in which they are declared above
    refine List.Nodup.of_map Errno.ctorIdx ?_
    rw [show errnoNames.map Errno.ctorIdx = List.range ERRNO_ITEMS by decide]
    exact List.nodup_range
  rw [errnoItems, List.map_map]
  exact (List.map_id errnoNames).symm ▸ hnames

/-- **The generated files cover each code once** exactly if each code of the platform is below
the number of names. -/
theorem hostgen_coversOnce_iff (strerror : ℤ → String) (platform : Errno → BitVec 32) :
    (∃ source, emitErrnoC strerror (errnoItems platform) = some source ∧
        CoversOnce strerror (errnoItems platform) (emitErrnoH (errnoItems platform)) source) ↔
      ∀ item ∈ errnoItems platform, item.code.toNat < ERRNO_ITEMS := by
  rw [← exists_emitErrnoC_iff]
  constructor
  · rintro ⟨source, h, -⟩
    exact ⟨source, h⟩
  · rintro ⟨source, h⟩
    exact ⟨source, h, coversOnce_of_emitErrnoC (nodup_errnoItems platform) h⟩

/-- **A code that is too large**: where `EDQUOT` is 1133, the generator leaves its array. -/
theorem not_hostgen_coversOnce :
    ¬∀ (strerror : ℤ → String) (platform : Errno → BitVec 32), ∃ source,
      emitErrnoC strerror (errnoItems platform) = some source ∧
        CoversOnce strerror (errnoItems platform) (emitErrnoH (errnoItems platform)) source := by
  intro h
  obtain ⟨source, hsource, -⟩ := h (fun _ => "") fun name => if name = .EDQUOT then 1133 else 1
  have hin := exists_emitErrnoC_iff.mp ⟨source, hsource⟩ ⟨.EDQUOT, 1133⟩
    (List.mem_map.mpr ⟨.EDQUOT, by decide, rfl⟩)
  exact absurd hin (by decide)

end Hostgen

end Waeio
