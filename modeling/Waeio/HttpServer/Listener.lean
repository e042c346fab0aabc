import Mathlib.Data.Nat.Count
import Waeio.HttpServer.Basic
import Waeio.WasioHost.Failure

/-!
# How many connections the listener accepts

A pass of `listener` hands `w_accept` the room that is left, `max_clients - clients`, as the
number of connections to accept, and the address of `clients` as the place to count them
in. But `w_accept` counts on from what it finds there, and compares the total with its
limit: what it stops at is a total of `max_clients - clients` clients, not as many new
ones. With half of the room taken it accepts nothing at all.

The functions are given here with what they count, for any limit, and for any sequence of
results of `wasio_accept`; what else `w_accept` does for a connection is in the model of the
server. How a pass ends is `Waeio.HttpServer.Ends`, and it leaves room exactly if the server
was neither empty nor full before and every call with a total below the limit succeeds
(`Waeio.HttpServer.listenerPass_usesRoom_iff`). The passes of the server that no assertion
ends are such passes (`Waeio.HttpServer.Accepts.listenerPass_eq`).
-/

namespace Waeio

namespace HttpServer

/-! ### The functions -/

/-- What `w_accept` counts. -/
structure Accepting where
  /-- `*naccepted` -/
  naccepted : ℕ
  /-- The number of calls of `wasio_accept`. -/
  calls : ℕ
  deriving DecidableEq, Repr

/-- The loop of `w_accept`, with `fuel` rounds to go. The call number `i` of `wasio_accept`
returns `results i`. -/
def acceptLoop (results : ℕ → WasioResult) (maxAccept : ℕ) :
    (fuel : ℕ) → Accepting → WasioResult × Accepting
  | 0, a => (.ok, a)
  | fuel + 1, a =>
    if a.naccepted < maxAccept then
      let ans := results a.calls
      if ans = .ok then
        acceptLoop results maxAccept fuel ⟨Uint32.succ a.naccepted, a.calls + 1⟩
      else (ans, { a with calls := a.calls + 1 })
    else (.ok, a)

/-- `w_accept`; `naccepted` is what its last argument points to. -/
def wAccept (results : ℕ → WasioResult) (maxAccept naccepted : ℕ) : WasioResult × Accepting :=
  acceptLoop results maxAccept (maxAccept - naccepted) ⟨naccepted, 0⟩

/-- **A pass of `listener`**, from its test for space on, where it does not yield for want
of space. -/
def listenerPass (results : ℕ → WasioResult) (maxClients clients : ℕ) :
    Option (WasioResult × Accepting) :=
  if clients = maxClients then none
  else some (wAccept results (Uint32.sub maxClients clients) clients)

/-! ### What is claimed of a pass -/

/-- **The pass uses all the room there is**: it stops because a call did not succeed, or at
`max_clients`, and counts the connections. -/
structure UsesRoom (results : ℕ → WasioResult) (maxClients clients : ℕ) (a : Accepting) :
    Prop where
  stops : (∃ j < a.calls, results j ≠ .ok) ∨ a.naccepted = maxClients
  le : a.naccepted ≤ maxClients
  counts : a.naccepted = clients + Nat.count (fun j => results j = .ok) a.calls

/-! ### How the loop ends -/

variable {results : ℕ → WasioResult} {maxAccept maxClients clients fuel n i k : ℕ}
  {r : WasioResult × Accepting}

/-- **How the loop of `w_accept` ends**, from `n` connections and the call number `i` on,
with `k` new ones. -/
inductive Ends (results : ℕ → WasioResult) (maxAccept n i k : ℕ) :
    WasioResult × Accepting → Prop
  /-- The total is not below the limit. -/
  | full (hok : ∀ j < k, results (i + j) = .ok) (hfull : n + k = max n maxAccept) :
    Ends results maxAccept n i k (.ok, ⟨n + k, i + k⟩)
  /-- A call does not succeed. -/
  | fails (hok : ∀ j < k, results (i + j) = .ok) (hlt : n + k < maxAccept)
      (hres : results (i + k) ≠ .ok) :
    Ends results maxAccept n i k (results (i + k), ⟨n + k, i + k + 1⟩)

/-- One more call at the start, which succeeds. -/
theorem Ends.cons (h : Ends results maxAccept (n + 1) (i + 1) k r) (hres : results i = .ok)
    (hlt : n < maxAccept) : Ends results maxAccept n i (k + 1) r := by
  have hn : n + 1 + k = n + (k + 1) := by omega
  have hi : i + 1 + k = i + (k + 1) := by omega
  have hcons (hok : ∀ j < k, results (i + 1 + j) = .ok) : ∀ j < k + 1, results (i + j) = .ok := by
    rintro (_ | j) hj
    · exact hres
    · rw [show i + (j + 1) = i + 1 + j by omega]
      exact hok j (by omega)
  cases h with
  | full hok hfull =>
    rw [hn, hi]
    exact .full (hcons hok) (by omega)
  | fails hok hlt' hres' =>
    rw [hn, hi]
    rw [hi] at hres'
    exact .fails (hcons hok) (by omega) hres'

theorem Ends.naccepted_le (h : Ends results maxAccept n i k r) :
    n ≤ r.2.naccepted ∧ r.2.naccepted ≤ max n maxAccept := by
  cases h with
  | full hok hfull => exact ⟨Nat.le_add_right n k, hfull.le⟩
  | fails hok hlt hres => exact ⟨Nat.le_add_right n k, le_max_of_le_right hlt.le⟩

/-- **The loop ends**, given as many rounds as there are connections to go. -/
theorem acceptLoop_ends (hmax : maxAccept < 2 ^ 32) (hfuel : maxAccept - n ≤ fuel) :
    ∃ k, Ends results maxAccept n i k (acceptLoop results maxAccept fuel ⟨n, i⟩) := by
  induction fuel generalizing n i with
  | zero => exact ⟨0, .full nofun (by omega)⟩
  | succ fuel ih =>
    rw [acceptLoop]
    dsimp only
    split_ifs with hlt hres
    · obtain ⟨k, hk⟩ := ih (n := n + 1) (i := i + 1) (by omega)
      rw [Uint32.succ_of_lt (by omega)]
      exact ⟨k + 1, hk.cons hres hlt⟩
    · exact ⟨0, .fails nofun hlt hres⟩
    · exact ⟨0, .full nofun (by omega)⟩

/-! ### Whether it uses the room -/

/-- A pass counts exactly the connections it accepts. -/
theorem Ends.counts (h : Ends results maxAccept clients 0 k r) :
    r.2.naccepted = clients + Nat.count (fun j => results j = .ok) r.2.calls := by
  have hall (hok : ∀ j < k, results (0 + j) = .ok) :
      Nat.count (fun j => results j = .ok) (0 + k) = k := by
    rw [zero_add, Nat.count_iff_forall]
    intro j hj
    rw [← zero_add j]
    exact hok j hj
  cases h with
  | full hok hfull => rw [hall hok]
  | fails hok hlt hres => rw [Nat.count_succ, hall hok, if_neg hres, add_zero]

/-- **Where it ends with room left**: the limit for the total is what was left at the
start, which is all there is only if the server was empty. -/
theorem Ends.usesRoom_iff (h : Ends results (maxClients - clients) clients 0 k r)
    (hlt : clients < maxClients) :
    UsesRoom results maxClients clients r.2 ↔
      clients = 0 ∨ ∃ j, 2 * clients + j < maxClients ∧ results j ≠ .ok := by
  have hcounts := h.counts
  cases h with
  | full hok hfull =>
    have hno : ∀ j < k, ¬results j ≠ .ok := by
      intro j hj
      rw [not_not, ← zero_add j]
      exact hok j hj
    -- every call has succeeded, so the pass has to end at `max_clients`
    constructor
    · rintro ⟨⟨j, hj, hres⟩ | hreach, -, -⟩
      · exact absurd hres (hno j (by simpa using hj))
      · dsimp only at hreach
        left
        omega
    · rintro (rfl | ⟨j, hj, hres⟩)
      · have hk : 0 + k = maxClients := by omega
        exact ⟨Or.inr hk, hk.le, hcounts⟩
      · exact absurd hres (hno j (by omega))
  | fails hok hbelow hres =>
    rw [zero_add] at hres
    refine iff_of_true ⟨Or.inl ⟨k, by simp, hres⟩, ?_, hcounts⟩ (Or.inr ⟨k, by omega, hres⟩)
    dsimp only
    omega

/-- How a pass ends that does not yield for want of space. -/
theorem listenerPass_ends (results : ℕ → WasioResult) (hlt : clients < maxClients)
    (hmax : maxClients < 2 ^ 32) :
    ∃ k r, listenerPass results maxClients clients = some r ∧
      Ends results (maxClients - clients) clients 0 k r := by
  obtain ⟨k, hk⟩ : ∃ k, Ends results (maxClients - clients) clients 0 k
      (wAccept results (maxClients - clients) clients) := acceptLoop_ends (by omega) le_rfl
  refine ⟨k, _, ?_, hk⟩
  rw [listenerPass, if_neg hlt.ne, Uint32.sub, if_pos hlt.le]

/-- **The listener uses all the room there is** exactly if the server is empty or full, or a
call does not succeed while twice the clients there were and the connections accepted since
are below `max_clients`. -/
theorem listenerPass_usesRoom_iff (results : ℕ → WasioResult) {maxClients clients : ℕ}
    (hle : clients ≤ maxClients) (hmax : maxClients < 2 ^ 32) :
    (∀ r, listenerPass results maxClients clients = some r →
        UsesRoom results maxClients clients r.2) ↔
      clients = 0 ∨ clients = maxClients ∨
        ∃ k, 2 * clients + k < maxClients ∧ results k ≠ .ok := by
  rcases hle.eq_or_lt with rfl | hlt
  · -- a full server makes no pass
    refine iff_of_true (fun r hr => ?_) (Or.inr (Or.inl rfl))
    rw [listenerPass, if_pos rfl] at hr
    exact absurd hr nofun
  · obtain ⟨k, r, hpass, hends⟩ := listenerPass_ends results hlt hmax
    have hiff := hends.usesRoom_iff hlt
    rw [hpass]
    constructor
    · exact fun huses => (hiff.mp (huses r rfl)).imp_right Or.inr
    · rintro (hzero | heq | hfail) r' hr'
      · obtain rfl := Option.some.inj hr'
        exact hiff.mpr (Or.inl hzero)
      · exact absurd heq hlt.ne
      · obtain rfl := Option.some.inj hr'
        exact hiff.mpr (Or.inr hfail)

/-- From an empty server, it does. -/
theorem listenerPass_usesRoom_iff_empty :
    (∀ r, listenerPass (fun _ => .ok) MAX_CLIENTS 0 = some r →
        UsesRoom (fun _ => .ok) MAX_CLIENTS 0 r.2) ↔
      0 = 0 ∨ 0 = MAX_CLIENTS ∨ ∃ k, 2 * 0 + k < MAX_CLIENTS ∧ WasioResult.ok ≠ .ok :=
  listenerPass_usesRoom_iff _ (by decide) (by decide)

/-- **Half full, the listener accepts nothing**, though each call would succeed. -/
theorem not_listenerPass_usesRoom :
    ¬∀ (results : ℕ → WasioResult) (maxClients clients : ℕ), clients ≤ maxClients →
      maxClients < 2 ^ 32 → ∀ r, listenerPass results maxClients clients = some r →
        UsesRoom results maxClients clients r.2 := by
  intro h
  have hpass : listenerPass (fun _ => .ok) MAX_CLIENTS 512 = some (.ok, ⟨512, 0⟩) := by decide
  rcases (h _ MAX_CLIENTS 512 (by decide) (by decide) _ hpass).stops with ⟨j, hj, -⟩ | hreach
  · exact absurd hj (Nat.not_lt_zero j)
  · exact absurd hreach (by decide)

/-! ### The passes of the server -/

section Server

variable {f : ℕ} {fd : ℤ} {m : ℕ} {s t u : Server} {a : Http.Answer} {rs : List WasioResult}

/-- The fiber `f` is at the head of the loop of `w_accept`, which it goes on with or has
left. -/
def AtHead (f : ℕ) (fd : ℤ) (m : ℕ) (s : Server) : Prop :=
  s.clients < m ∧ s.frames f = .running (.accept fd m) ∨
    m ≤ s.clients ∧ s.frames f = .listening fd

theorem atHead_acceptMore (f : ℕ) (fd : ℤ) (m : ℕ) (s : Server) :
    AtHead f fd m (acceptMore f fd m s) ∧ (acceptMore f fd m s).clients = s.clients := by
  rw [acceptMore]
  split_ifs with hlt
  · exact ⟨Or.inl ⟨hlt, Server.frames_setFrame_self ..⟩, rfl⟩
  · exact ⟨Or.inr ⟨not_lt.mp hlt, Server.frames_setFrame_self ..⟩, rfl⟩

/-- An accept that succeeds hands out a descriptor. -/
theorem vfd_of_wasioAccept_ok {wfd : WasioPollfd} {vfd : ℕ} {host : HostAnswer}
    (h : (wasioAccept wfd vfd host).1.result = .ok) :
    ∃ v, (wasioAccept wfd vfd host).1.vfd = some v := by
  rw [wasioAccept] at h ⊢
  split_ifs at h ⊢
  · exact absurd h (translateError_ne_ok _)
  · rcases WasioHost.wasioWrap_cases wfd host.ret with ⟨-, v, fl, hwrap⟩ | ⟨-, hwrap⟩
    · rw [hwrap]
      exact ⟨v, rfl⟩
    · rw [hwrap] at h
      cases h

/-- **A call of `wasio_accept`** that succeeds is counted, and brings the fiber to the head
of the loop again; after any other it waits for a connection. -/
theorem accepted_cases (h : accepted f fd m s a = some t) :
    (wasioAccept s.wfd fd.toNat a.toHostAnswer).1.result = .ok ∧
        t.clients = Uint32.succ s.clients ∧ AtHead f fd m t ∨
      (wasioAccept s.wfd fd.toNat a.toHostAnswer).1.result ≠ .ok ∧
        t.clients = s.clients ∧ t.frames f = .listening fd := by
  rw [accepted] at h
  split at h
  next hacc =>
    obtain ⟨rearq, -, rfl⟩ := Option.map_eq_some_iff.mp h
    obtain ⟨hhead, hclients⟩ := atHead_acceptMore f fd m
      { allocConnection fd _ { s with wfd := _ } with
        rearq := rearq, clients := Uint32.succ s.clients }
    exact Or.inl ⟨by rw [hacc], hclients, hhead⟩
  next reply wfd hother hacc =>
    -- the other answers, as one that succeeds hands out a descriptor
    obtain rfl := Option.some.inj h
    refine Or.inr ⟨fun hok => ?_, rfl, Server.frames_setFrame_self ..⟩
    obtain ⟨v, hv⟩ := vfd_of_wasioAccept_ok hok
    rw [hacc] at hok hv
    obtain ⟨call, result, vfd, count⟩ := reply
    obtain rfl : result = .ok := hok
    obtain rfl : vfd = some v := hv
    exact hother _ _ _ rfl

/-- **The rest of a pass of the listener** in the fiber `f`, with what its calls of
`wasio_accept` return. -/
inductive Accepts (f : ℕ) (fd : ℤ) (m : ℕ) : Server → List WasioResult → Server → Prop
  /-- It waits for a connection. -/
  | nil {s : Server} (hwaits : s.frames f = .listening fd) : Accepts f fd m s [] s
  /-- It goes on with the answer of the host. -/
  | cons {s t u : Server} {a : Http.Answer} {rs : List WasioResult}
      (hcalls : s.frames f = .running (.accept fd m)) (hacc : accepted f fd m s a = some t)
      (hrest : Accepts f fd m t rs u) :
    Accepts f fd m s ((wasioAccept s.wfd fd.toNat a.toHostAnswer).1.result :: rs) u

/-- From the head of its loop on, `w_accept` counts as `acceptLoop` does. -/
theorem Accepts.acceptLoop_eq (h : Accepts f fd m s rs t) (hhead : AtHead f fd m s)
    (hmax : m < 2 ^ 32) (hfuel : m - s.clients ≤ fuel)
    (hres : ∀ j r, rs[j]? = some r → results (i + j) = r) :
    ∃ res, acceptLoop results m fuel ⟨s.clients, i⟩ = (res, ⟨t.clients, i + rs.length⟩) := by
  induction h generalizing i fuel with
  | @nil s hwaits =>
    rcases hhead with ⟨-, hcalls⟩ | ⟨hle, -⟩
    · rw [hwaits] at hcalls
      exact absurd hcalls nofun
    · refine ⟨.ok, ?_⟩
      cases fuel with
      | zero => rfl
      | succ fuel => rw [acceptLoop, if_neg (not_lt.mpr hle)]; rfl
  | @cons s t u a rs hcalls hacc hrest ih =>
    rcases hhead with ⟨hlt, -⟩ | ⟨-, hwaits⟩
    · obtain ⟨fuel, rfl⟩ : ∃ k, fuel = k + 1 := ⟨fuel - 1, by omega⟩
      have hfirst : results i = _ := hres 0 _ rfl
      rw [acceptLoop, if_pos hlt]
      dsimp only
      rcases accepted_cases hacc with ⟨hok, hclients, hhead'⟩ | ⟨hne, hclients, hwaits⟩
      · have hnext : ∀ j r, rs[j]? = some r → results (i + 1 + j) = r := by
          intro j r hj
          rw [show i + 1 + j = i + (j + 1) by omega]
          exact hres (j + 1) r hj
        have hsucc : t.clients = s.clients + 1 := by rw [hclients, Uint32.succ_of_lt (by omega)]
        obtain ⟨res, hloop⟩ := ih hhead' (show m - t.clients ≤ fuel by omega) hnext
        refine ⟨res, ?_⟩
        rw [if_pos (hfirst.trans hok), ← hclients, hloop, List.length_cons, Nat.add_right_comm i,
          Nat.add_assoc i]
      · -- the fiber waits, and makes no other call
        cases hrest with
        | nil =>
          refine ⟨results i, ?_⟩
          rw [if_neg (fun heq => hne (hfirst.symm.trans heq)), hclients]
          rfl
        | cons hcalls' =>
          rw [hwaits] at hcalls'
          exact absurd hcalls' nofun
    · rw [hwaits] at hcalls
      exact absurd hcalls nofun

/-- **The passes of the server** are passes of `listener` for its limit, with the same
calls and the same count. -/
theorem Accepts.listenerPass_eq (hroom : s.clients ≠ MAX_CLIENTS)
    (h : Accepts f fd (Uint32.sub MAX_CLIENTS s.clients) (listenerLoop f fd s) rs t)
    (hres : ∀ j r, rs[j]? = some r → results j = r) :
    ∃ res, listenerPass results MAX_CLIENTS s.clients = some (res, ⟨t.clients, rs.length⟩) := by
  have hmax : Uint32.sub MAX_CLIENTS s.clients < 2 ^ 32 := by
    rw [Uint32.sub, show MAX_CLIENTS = 1023 from rfl]
    split_ifs <;> omega
  rw [listenerLoop, if_neg hroom] at h
  obtain ⟨hhead, hclients⟩ :=
    atHead_acceptMore f fd (Uint32.sub MAX_CLIENTS s.clients) s
  obtain ⟨res, hloop⟩ := h.acceptLoop_eq hhead hmax (by rw [hclients])
    (fun j r hj => by rw [zero_add]; exact hres j r hj)
  rw [hclients, zero_add] at hloop
  exact ⟨res, by rw [listenerPass, if_neg hroom, wAccept, hloop]⟩

/-- **What a pass leaves** is not more clients than there were, or than there was room for. -/
theorem Accepts.clients_le (hroom : s.clients < MAX_CLIENTS)
    (h : Accepts f fd (Uint32.sub MAX_CLIENTS s.clients) (listenerLoop f fd s) rs t) :
    s.clients ≤ t.clients ∧ t.clients ≤ max s.clients (MAX_CLIENTS - s.clients) := by
  obtain ⟨results, hres⟩ : ∃ results : ℕ → WasioResult, ∀ j r, rs[j]? = some r → results j = r := by
    refine ⟨fun j => rs[j]?.getD .ok, fun j r hj => ?_⟩
    dsimp only
    rw [hj, Option.getD_some]
  obtain ⟨res, hpass⟩ := h.listenerPass_eq hroom.ne hres
  obtain ⟨k, r, hpass', hends⟩ := listenerPass_ends results hroom (by decide)
  obtain rfl := Option.some.inj (hpass.symm.trans hpass')
  exact hends.naccepted_le

end Server

end HttpServer

end Waeio
