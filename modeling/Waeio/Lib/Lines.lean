import Mathlib.Data.List.Basic

/-!
# Lines, and a body behind them

Texts over any alphabet with two letters `cr` and `lf`, which together end a line. A head is
a sequence of lines that are not empty; an empty line ends it, and what is behind that is the
body (`Lines.encode`). `Lines.decode` reads a head from left to right, and leaves the body.

A line that does not have the letter `cr` ends where it was ended (`Lines.readLine_append`),
so a head of such lines is read back, whatever the body is (`Lines.read_encode`). What is
read is never anything but the encoding of the result (`Lines.eq_encode_of_read`).
-/

namespace Lines

variable {α : Type*} [DecidableEq α] {cr lf : α}

/-- A head and a body. -/
def encode (cr lf : α) (head : List (List α)) (body : List α) : List α :=
  (head.flatMap fun l => l ++ [cr, lf]) ++ cr :: lf :: body

/-- **Reads a line**: what is before the first `cr` and `lf`, and what is behind them. -/
def readLine (cr lf : α) : List α → Option (List α × List α)
  | [] | [_] => none
  | a :: b :: rest =>
    if a = cr ∧ b = lf then some ([], rest)
    else (readLine cr lf (b :: rest)).map fun r => (a :: r.1, r.2)

/-- **Reads a head** of less than `n` lines. -/
def decode (cr lf : α) : ℕ → List α → Option (List (List α) × List α)
  | 0, _ => none
  | n + 1, l =>
    match readLine cr lf l with
    | none => none
    | some ([], body) => some ([], body)
    | some (a :: line, rest) => (decode cr lf n rest).map fun r => ((a :: line) :: r.1, r.2)

/-- Reads a head, as long as it may be. -/
def read (cr lf : α) (l : List α) : Option (List (List α) × List α) := decode cr lf l.length l

theorem readLine_append {line : List α} (h : cr ∉ line) (rest : List α) :
    readLine cr lf (line ++ cr :: lf :: rest) = some (line, rest) := by
  induction line with
  | nil => simp [readLine]
  | cons a line ih =>
    obtain ⟨hne, hline⟩ := List.ne_and_not_mem_of_not_mem_cons h
    obtain ⟨b, l, hl⟩ : ∃ b l, line ++ cr :: lf :: rest = b :: l := by
      cases line with
      | nil => exact ⟨cr, _, rfl⟩
      | cons b line => exact ⟨b, _, rfl⟩
    rw [List.cons_append, hl, readLine, if_neg fun hcr => hne hcr.1.symm, ← hl, ih hline]
    rfl

/-- **A head is read back**, with what is behind it. -/
theorem decode_encode {head : List (List α)} (h : ∀ line ∈ head, line ≠ [] ∧ cr ∉ line) {n : ℕ}
    (hn : head.length < n) (body : List α) :
    decode cr lf n (encode cr lf head body) = some (head, body) := by
  induction head generalizing n with
  | nil =>
    obtain ⟨n, rfl⟩ := Nat.exists_eq_succ_of_ne_zero (Nat.ne_of_gt hn)
    have hline : readLine cr lf (encode cr lf [] body) = some ([], body) :=
      readLine_append List.not_mem_nil body
    rw [decode, hline]
  | cons line head ih =>
    obtain ⟨n, rfl⟩ := Nat.exists_eq_succ_of_ne_zero (Nat.ne_of_gt (Nat.lt_of_le_of_lt
      (Nat.zero_le _) hn))
    obtain ⟨hline, hhead⟩ := List.forall_mem_cons.mp h
    have henc : encode cr lf (line :: head) body =
        line ++ cr :: lf :: encode cr lf head body := by
      simp [encode]
    have hrest := ih hhead (Nat.lt_of_succ_lt_succ hn)
    obtain ⟨a, l, rfl⟩ := List.exists_cons_of_ne_nil hline.1
    rw [decode, henc, readLine_append hline.2]
    dsimp only
    rw [hrest]
    rfl

omit [DecidableEq α] in
theorem length_lt_encode (head : List (List α)) (body : List α) :
    head.length < (encode cr lf head body).length := by
  induction head with
  | nil => simp [encode]
  | cons line head ih =>
    have henc : encode cr lf (line :: head) body =
        line ++ cr :: lf :: encode cr lf head body := by
      simp [encode]
    rw [henc, List.length_append, List.length_cons, List.length_cons, List.length_cons]
    omega

theorem read_encode {head : List (List α)} (h : ∀ line ∈ head, line ≠ [] ∧ cr ∉ line)
    (body : List α) : read cr lf (encode cr lf head body) = some (head, body) :=
  decode_encode h (length_lt_encode head body) body

theorem eq_of_readLine {l line rest : List α} (h : readLine cr lf l = some (line, rest)) :
    l = line ++ cr :: lf :: rest := by
  induction l generalizing line with
  | nil => cases h
  | cons a l ih =>
    cases l with
    | nil => cases h
    | cons b l =>
      rw [readLine] at h
      split_ifs at h with hend
      · obtain ⟨rfl, rfl⟩ := Prod.mk.inj (Option.some.inj h)
        rw [hend.1, hend.2]
        rfl
      · obtain ⟨r, hr, hpair⟩ := Option.map_eq_some_iff.mp h
        obtain ⟨rfl, rfl⟩ := Prod.mk.inj hpair
        rw [ih hr]
        rfl

/-- **What is read as a head and a body is their encoding.** -/
theorem eq_encode_of_decode {n : ℕ} {l : List α} {head : List (List α)} {body : List α}
    (h : decode cr lf n l = some (head, body)) : l = encode cr lf head body := by
  induction n generalizing l head with
  | zero => cases h
  | succ n ih =>
    rw [decode] at h
    split at h
    · cases h
    · rename_i rest hline
      obtain ⟨rfl, rfl⟩ := Prod.mk.inj (Option.some.inj h)
      exact eq_of_readLine hline
    · rename_i a line rest hline
      obtain ⟨r, hr, hpair⟩ := Option.map_eq_some_iff.mp h
      obtain ⟨rfl, rfl⟩ := Prod.mk.inj hpair
      rw [eq_of_readLine hline, ih hr]
      simp [encode]

theorem eq_encode_of_read {l : List α} {head : List (List α)} {body : List α}
    (h : read cr lf l = some (head, body)) : l = encode cr lf head body :=
  eq_encode_of_decode h

end Lines
