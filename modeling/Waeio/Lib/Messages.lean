import Mathlib.Data.List.Forall2

/-!
# Messages on a stream

A reader takes one message off the front of a stream, and leaves what is behind it. What
follows is about any such reader, and about a sender that hands the texts of its messages to
a stream which may take a part of each only.

A text *says* a message if the reader finds it in front of whatever comes behind the text
(`Messages.Says`). Texts that say messages, one after the other, are read as these messages
(`Messages.reads_texts`). Where the reader accepts a single text for each message
(`Messages.Exact`), the converse holds as well: the messages are read off the stream exactly
if every text was taken as a whole (`Messages.reads_taken_iff`).
-/

namespace Messages

variable {α μ : Type*} {read : List α → Option (μ × List α)} {write : μ → List α}

/-- **The reader takes messages off a stream**, one after the other, and leaves the rest. -/
inductive Reads (read : List α → Option (μ × List α)) : List α → List μ → List α → Prop
  /-- It takes none. -/
  | nil (l : List α) : Reads read l [] l
  /-- It takes one, and then others. -/
  | cons {l l' rest : List α} {m : μ} {ms : List μ} :
      read l = some (m, l') → Reads read l' ms rest → Reads read l (m :: ms) rest

/-- **The text says the message**, whatever comes behind it. -/
def Says (read : List α → Option (μ × List α)) (l : List α) (m : μ) : Prop :=
  ∀ rest, read (l ++ rest) = some (m, rest)

/-- The reader takes off the stream what it would have been sent. -/
def Exact (read : List α → Option (μ × List α)) (write : μ → List α) : Prop :=
  ∀ l m rest, read l = some (m, rest) → l = write m ++ rest

theorem Says.eq_write (hexact : Exact read write) {l : List α} {m : μ} (h : Says read l m) :
    l = write m := by
  have hread := hexact _ _ _ (h [])
  rwa [List.append_nil, List.append_nil] at hread

/-- **What was read was on the stream.** -/
theorem Reads.eq_append (hexact : Exact read write) {l rest : List α} {ms : List μ}
    (h : Reads read l ms rest) : l = ms.flatMap write ++ rest := by
  induction h with
  | nil l => rfl
  | cons hread _ ih => rw [hexact _ _ _ hread, ih, List.flatMap_cons, List.append_assoc]

variable {sent : List (List α × ℕ)} {ms : List μ}

/-- **Texts are read as what they say.** -/
theorem reads_texts (h : List.Forall₂ (fun p => Says read p.1) sent ms) (rest : List α) :
    Reads read (sent.flatMap Prod.fst ++ rest) ms rest := by
  induction h with
  | nil => exact .nil rest
  | cons htext _ ih =>
    rw [List.flatMap_cons, List.append_assoc]
    exact .cons (htext _) ih

/-- Such texts are those of the messages. -/
theorem flatMap_write_eq (hexact : Exact read write)
    (h : List.Forall₂ (fun p => Says read p.1) sent ms) :
    ms.flatMap write = sent.flatMap Prod.fst := by
  induction h with
  | nil => rfl
  | cons htext _ ih => rw [List.flatMap_cons, List.flatMap_cons, ih, htext.eq_write hexact]

/-! ### A stream that takes a part of a text -/

/-- **What the stream has taken**: of each text, as much as it says. -/
def taken (sent : List (List α × ℕ)) : List α := sent.flatMap fun p => p.1.take p.2

theorem taken_eq_of_le (h : ∀ p ∈ sent, p.1.length ≤ p.2) : taken sent = sent.flatMap Prod.fst :=
  List.flatMap_congr fun p hp => List.take_of_length_le (h p hp)

theorem length_taken_le (sent : List (List α × ℕ)) :
    (taken sent).length ≤ (sent.flatMap Prod.fst).length := by
  induction sent with
  | nil => exact Nat.zero_le _
  | cons p sent ih =>
    simp only [taken, List.flatMap_cons, List.length_append, List.length_take] at ih ⊢
    omega

/-- Nothing is missing exactly if every text was taken as a whole. -/
theorem length_taken_eq_iff :
    (taken sent).length = (sent.flatMap Prod.fst).length ↔ ∀ p ∈ sent, p.1.length ≤ p.2 := by
  constructor
  · intro h
    induction sent with
    | nil => simp
    | cons p sent ih =>
      have hle := length_taken_le sent
      simp only [taken, List.flatMap_cons, List.length_append, List.length_take] at h hle ih
      exact List.forall_mem_cons.mpr ⟨by omega, ih (by omega)⟩
  · intro h
    rw [taken_eq_of_le h]

/-- **The messages are read exactly if every text was taken as a whole.** -/
theorem reads_taken_iff (hexact : Exact read write)
    (h : List.Forall₂ (fun p => Says read p.1) sent ms) :
    (∀ rest, Reads read (taken sent ++ rest) ms rest) ↔ ∀ p ∈ sent, p.1.length ≤ p.2 := by
  constructor
  · intro hreads
    have heq := (hreads []).eq_append hexact
    rw [List.append_nil, List.append_nil, flatMap_write_eq hexact h] at heq
    exact length_taken_eq_iff.mp (congrArg List.length heq)
  · intro hall rest
    rw [taken_eq_of_le hall]
    exact reads_texts h rest

end Messages
