import Waeio.HostPoll.Entries
import Waeio.WasioHost.Table

/-!
# Two backends, one interface

`src/wasio_host.c` and `src/wasio/host_poll.c` implement the same interface over the same host.
The first numbers the slots of a table and keeps the descriptor of the host with each, the
second hands the descriptors of the host out as they are and keeps a row of them. A client does
not look into what it is handed. So a client can be run over either, and here it is: it names a
descriptor by its place in the order in which it was handed them
(`Waeio.Backends.Op.resolve`), and both backends are given the same answers of the host.

The protocol (`Waeio.Backends.Client.step`) is what any client keeps that cleans up after
itself: it uses no descriptor that it has closed. It also says what the row has and the table
has not, an end: no entry is ever taken out of it, so it is the number of descriptors handed
out since `wasio_init`, and not of those open, that has to stay within the capacity.

Under the protocol the two make the same calls of the host and answer alike
(`Waeio.wasio_backends_agree`), but for two things. Where the peer has closed the connection,
`wasio_recv` succeeds with no bytes in the first, and fails with `WASIO_ECONN` in the second.
And a poll is of another array: all the slots of the table, of which those that are free hold
`-1`, but in the row all the descriptors handed out, of which those that are closed are still
asked about. So the host answers each of the two polls, and each backend reports its own answer.
-/

namespace Waeio

namespace Backends

open WasioHost (TableInv)

/-! ### A client over a backend -/

/-- **An operation of the interface**, for descriptors of the type `δ`, with the answer of the
host. In `wasio_poll` the host is handed another array by each backend: it writes and answers
one for the table and one for the row. -/
inductive Op (δ : Type)
  /-- `wasio_listen` -/
  | listen (port backlog : ℤ) (host : HostAnswer) : Op δ
  /-- `wasio_poll` -/
  | poll (timeout : ℤ) (sparse dense : ℕ → BitVec 16) (host host' : HostAnswer) : Op δ
  /-- `wasio_accept` -/
  | accept (vfd : δ) (host : HostAnswer) : Op δ
  /-- `wasio_recv` -/
  | recv (vfd : δ) (len : ℕ) (host : HostAnswer) : Op δ
  /-- `wasio_send` -/
  | send (vfd : δ) (len : ℕ) (host : HostAnswer) : Op δ
  /-- `wasio_close` -/
  | close (vfd : δ) (host : HostAnswer) : Op δ
  /-- `wasio_notify_recv`, which the second backend does without. -/
  | notifyRecv (vfd : δ) : Op δ
  /-- `wasio_notify_send`, which the second backend does without. -/
  | notifySend (vfd : δ) : Op δ

/-- The operation of a client that names its descriptors by their places in the list of those
it was handed. -/
def Op.resolve {δ : Type} (given : List δ) : Op ℕ → Option (Op δ)
  | .listen port backlog host => some (.listen port backlog host)
  | .poll timeout sparse dense host host' => some (.poll timeout sparse dense host host')
  | .accept k host => given[k]?.map fun vfd => .accept vfd host
  | .recv k len host => given[k]?.map fun vfd => .recv vfd len host
  | .send k len host => given[k]?.map fun vfd => .send vfd len host
  | .close k host => given[k]?.map fun vfd => .close vfd host
  | .notifyRecv k => given[k]?.map fun vfd => .notifyRecv vfd
  | .notifySend k => given[k]?.map fun vfd => .notifySend vfd

/-- An operation on the table of `wasio_host.c`. -/
def Op.onTable : Op ℕ → WasioHost.Op
  | .listen port backlog host => .listen port backlog host
  | .poll timeout sparse _ host _ => .poll timeout sparse host
  | .accept vfd host => .accept vfd host
  | .recv vfd len host => .recv vfd len host
  | .send vfd len host => .send vfd len host
  | .close vfd host => .close vfd host
  | .notifyRecv vfd => .notifyRecv vfd
  | .notifySend vfd => .notifySend vfd

/-- A client over `wasio_host.c`. -/
structure Sparse where
  /-- The table. -/
  wfd : WasioPollfd
  /-- The virtual descriptors it was handed. -/
  given : List ℕ

/-- The client performs an operation. -/
def Sparse.step (s : Sparse) (op : Op ℕ) : Option (WasioHost.Reply × Sparse) :=
  (op.resolve s.given).bind fun op =>
    (WasioHost.perform s.wfd op.onTable).map fun (r, wfd) => (r, ⟨wfd, s.given ++ r.vfd.toList⟩)

/-- A client over `host_poll.c`. -/
structure Dense where
  /-- The poll array. -/
  wfd : HostPoll.WasioPollfd
  /-- The descriptors it was handed. -/
  given : List ℤ

/-- An operation on the poll array of `host_poll.c`, if it has it. -/
def Op.onRow : Op ℤ → Option HostPoll.Op
  | .listen port backlog host => some (.listen port backlog host)
  | .poll timeout _ dense _ host' => some (.poll timeout dense host')
  | .accept vfd host => some (.accept vfd host)
  | .recv vfd len host => some (.recv vfd len host)
  | .send vfd len host => some (.send vfd len host)
  | .close vfd host => some (.close vfd host)
  | .notifyRecv _ | .notifySend _ => none

/-- The client performs an operation. -/
def Dense.step (x : Dense) (op : Op ℕ) : Option (Option HostPoll.Reply × Dense) :=
  (op.resolve x.given).bind fun op =>
    match op.onRow with
    | some op => (HostPoll.perform x.wfd op).map fun (r, wfd) =>
        (some r, ⟨wfd, x.given ++ r.fd.toList⟩)
    | none => some (none, x)

/-! ### The protocol -/

/-- What a client knows of the descriptors it was handed. -/
structure Client where
  /-- How many there are. -/
  opened : ℕ
  /-- Those it has closed. -/
  closed : Finset ℕ
  /-- Those it has asked to be notified of when there is something to receive. -/
  notified : Finset ℕ

/-- The client at the start. -/
def Client.start : Client := ⟨0, ∅, ∅⟩

/-- The client has the descriptor `k`, and has not closed it. -/
def Client.Holds (c : Client) (k : ℕ) : Prop := k < c.opened ∧ k ∉ c.closed

instance (c : Client) : DecidablePred c.Holds := fun _ => inferInstanceAs (Decidable (_ ∧ _))

/-- A descriptor is handed to the client, if the host has one. -/
def Client.handed (c : Client) (host : HostAnswer) : Client :=
  if host.ret < 0 then c else { c with opened := c.opened + 1 }

/-- **The protocol**, with a capacity: descriptors are used until they are closed, and not more
are handed out than there is room for. The host closes a descriptor with `0` or fails. -/
def Client.step (cap : ℕ) (c : Client) : Op ℕ → Option Client
  | .listen _ _ host => if c.opened < cap then some (c.handed host) else none
  | .poll _ _ _ _ _ => some c
  | .accept k host => if c.Holds k ∧ c.opened < cap then some (c.handed host) else none
  | .recv k _ _ | .send k _ _ | .notifySend k => if c.Holds k then some c else none
  | .close k host =>
    if c.Holds k ∧ host.ret ≤ 0 then
      some (if host.ret = 0 then { c with closed := insert k c.closed } else c)
    else none
  | .notifyRecv k => if c.Holds k then some { c with notified := insert k c.notified } else none

/-! ### Agreement -/

/-- The replies say the same: the same call of the host was made, with the same outcome. -/
structure Alike (r : WasioHost.Reply) (r' : HostPoll.Reply) : Prop where
  call_eq : r.call = some r'.call
  result_eq : r.result = r'.result
  count_eq : r.count = r'.count
  handed_eq : r.vfd.isSome = r'.fd.isSome

/-- What `wasio_poll` makes of the answer of the host, in both. -/
def polled (host : HostAnswer) : WasioResult × Option ℕ :=
  if host.ret < 0 then (translateError host.errno, none) else (.ok, some host.ret.toNat)

/-- **The replies agree**, when the client is at `c`. A poll is of the
whole table, and of a row with an entry for each descriptor handed out; a connection that the
peer has closed is reported in another way. -/
def Agree (cap : ℕ) (c : Client) : Op ℕ → WasioHost.Reply → Option HostPoll.Reply → Prop
  | .notifyRecv _, r, r' | .notifySend _, r, r' => r.call = none ∧ r.result = .ok ∧ r' = none
  | .poll timeout _ _ host host', r, r' => ∃ q, r' = some q ∧
      r.call = some (.poll cap timeout) ∧ q.call = .poll c.opened timeout ∧
      (r.result, r.count) = polled host ∧ (q.result, q.count) = polled host'
  | .recv _ _ host, r, r' => ∃ q, r' = some q ∧
      if host.ret = 0 then
        r.call = some q.call ∧ r.result = .ok ∧ r.count = some 0 ∧ q.result = .econn
      else Alike r q
  | .listen _ _ _, r, r' | .accept _ _, r, r' | .send _ _ _, r, r' | .close _ _, r, r' =>
    ∃ q, r' = some q ∧ Alike r q

/-- **Two backends with the same client**, where `O` is the set of slots that are bound. -/
structure RelatedBy (cap : ℕ) (O : Finset ℕ) (c : Client) (s : Sparse) (x : Dense) : Prop where
  table : TableInv cap O s.wfd
  pollin_eq : s.wfd.pollin = POLLIN
  /-- The import `host_pollout` is of `pollin`. -/
  pollout_eq : s.wfd.pollout = POLLIN
  masks : ∀ v, (s.wfd.vfds v).events = 0 ∨ (s.wfd.vfds v).events = POLLIN
  card_le : O.card ≤ c.opened
  opened_le : c.opened ≤ cap
  sparse_length : s.given.length = c.opened
  dense_length : x.given.length = c.opened
  capacity_eq : x.wfd.capacity = cap
  length_eq : x.wfd.length = c.opened
  /-- The row has an entry for each descriptor handed out, open or not. -/
  entry : ∀ k d, x.given[k]? = some d →
    (x.wfd.fds k).fd = d ∧ (x.wfd.fds k).events = POLLIN
  /-- What the client holds is bound in the table to the descriptor in the row. -/
  slot : ∀ k, c.Holds k → ∃ v d, s.given[k]? = some v ∧ x.given[k]? = some d ∧ v ∈ O ∧
    s.wfd.fds v = d
  /-- No slot is held twice. -/
  inj : ∀ k k' v, c.Holds k → c.Holds k' → s.given[k]? = some v → s.given[k']? = some v → k = k'
  notified_lt : ∀ k ∈ c.notified, k < c.opened
  asked : ∀ k v, c.Holds k → k ∈ c.notified → s.given[k]? = some v →
    (s.wfd.vfds v).events = POLLIN

/-- The two backends have the same client. -/
def Related (cap : ℕ) (c : Client) (s : Sparse) (x : Dense) : Prop := ∃ O, RelatedBy cap O c s x

variable {cap : ℕ} {O : Finset ℕ} {c c' : Client} {s : Sparse} {x : Dense} {k : ℕ}

/-- A free slot is found while not all descriptors were handed out. -/
theorem RelatedBy.wrap_cases (h : RelatedBy cap O c s x) (hcap : cap % 32 = 0)
    (hroom : c.opened < cap) (d : ℤ) :
    ∃ v fl, wasioWrap s.wfd d = (.ok, some v, WasioHost.bindSlot s.wfd v d fl) ∧ v ∉ O ∧ v < cap ∧
      Freelist.Represents cap (insert v O) fl := by
  rcases h.table.wrap_cases hcap d with ⟨v, fl, hw, hv, hlt, hrep⟩ | hw
  · exact ⟨v, fl, hw, hv.1, hlt, hrep⟩
  · -- a full freelist has all the slots out, and there are not so many
    exfalso
    rcases Freelist.freelistNext_result s.wfd.fl with hok | hfull
    · obtain ⟨v, hv, -⟩ := h.table.rep.next_ok (Prod.ext hok rfl)
      have hnext : freelistNext s.wfd.fl = (.ok, some v, (freelistNext s.wfd.fl).2.2) :=
        Prod.ext hok (Prod.ext hv rfl)
      rw [wasioWrap, hnext] at hw
      cases hw
    · obtain ⟨hall, -⟩ := h.table.rep.next_full (Prod.ext hfull rfl)
      have hsub : Finset.range cap ⊆ O := fun m hm => hall m (Finset.mem_range.mp hm)
      have hcard := Finset.card_le_card hsub
      rw [Finset.card_range] at hcard
      have := h.card_le
      omega

/-- **A descriptor is handed out** by both backends. -/
theorem RelatedBy.handed (h : RelatedBy cap O c s x) {v : ℕ} {d : ℤ} {fl : Freelist}
    (hv : v ∉ O) (hlt : v < cap) (hd : 0 ≤ d) (hrep : Freelist.Represents cap (insert v O) fl)
    (hroom : c.opened < cap) :
    RelatedBy cap (insert v O) { c with opened := c.opened + 1 }
      ⟨WasioHost.bindSlot s.wfd v d fl, s.given ++ [v]⟩
      ⟨{ x.wfd with
          fds := Function.update x.wfd.fds x.wfd.length (HostPoll.opened d)
          length := x.wfd.length + 1 }, x.given ++ [d]⟩ := by
  have hold : ∀ {k}, k < c.opened → (s.given ++ [v])[k]? = s.given[k]? ∧
      (x.given ++ [d])[k]? = x.given[k]? := fun hk =>
    ⟨List.getElem?_append_left (by rw [h.sparse_length]; exact hk),
      List.getElem?_append_left (by rw [h.dense_length]; exact hk)⟩
  have hnew : (s.given ++ [v])[c.opened]? = some v ∧ (x.given ++ [d])[c.opened]? = some d := by
    rw [← h.sparse_length, List.getElem?_concat_length, h.sparse_length, ← h.dense_length,
      List.getElem?_concat_length]
    exact ⟨rfl, rfl⟩
  -- a descriptor held now is the new one, or was held before
  have hcases : ∀ {k}, Client.Holds { c with opened := c.opened + 1 } k →
      k = c.opened ∨ c.Holds k := fun hk => by
    rcases Nat.lt_succ_iff_lt_or_eq.mp hk.1 with hk' | hk'
    · exact Or.inr ⟨hk', hk.2⟩
    · exact Or.inl hk'
  -- the slot is not one that was held before
  have hne : ∀ {k w}, c.Holds k → s.given[k]? = some w → w ≠ v := by
    rintro k w hk hw rfl
    obtain ⟨u, -, hu, -, hmem, -⟩ := h.slot k hk
    obtain rfl := Option.some.inj (hw.symm.trans hu)
    exact hv hmem
  refine ⟨h.table.bind hd hv hlt hrep, h.pollin_eq, h.pollout_eq, fun w => ?_, ?_, hroom, ?_, ?_,
    h.capacity_eq, ?_, fun k e he => ?_, fun k hk => ?_, fun k k' w hk hk' hw hw' => ?_,
    fun k hk => Nat.lt_succ_of_lt (h.notified_lt k hk), fun k w hk hask hw => ?_⟩
  · rcases eq_or_ne w v with rfl | hw
    · simpa [WasioHost.bindSlot, WasioHost.setFd] using h.masks w
    · simpa [WasioHost.bindSlot, WasioHost.setFd, hw] using h.masks w
  · rw [Finset.card_insert_of_notMem hv]
    exact Nat.succ_le_succ h.card_le
  · rw [List.length_append, h.sparse_length, List.length_singleton]
  · rw [List.length_append, h.dense_length, List.length_singleton]
  · dsimp only
    rw [h.length_eq]
  · have hk : k < c.opened + 1 := by
      have := (List.getElem?_eq_some_iff.mp he).1
      rwa [List.length_append, h.dense_length, List.length_singleton] at this
    dsimp only
    rcases Nat.lt_succ_iff_lt_or_eq.mp hk with hk' | rfl
    · rw [h.length_eq, Function.update_of_ne (Nat.ne_of_lt hk')]
      exact h.entry k e ((hold hk').2 ▸ he)
    · rw [h.length_eq, Function.update_self]
      obtain rfl := Option.some.inj (hnew.2.symm.trans he)
      exact ⟨rfl, rfl⟩
  · rcases hcases hk with rfl | hk
    · exact ⟨v, d, hnew.1, hnew.2, Finset.mem_insert_self v O, by simp [WasioHost.bindSlot]⟩
    · obtain ⟨w, e, hw, he, hmem, hfd⟩ := h.slot k hk
      refine ⟨w, e, (hold hk.1).1.trans hw, (hold hk.1).2.trans he,
        Finset.mem_insert_of_mem hmem, ?_⟩
      simpa [WasioHost.bindSlot, hne hk hw] using hfd
  · dsimp only at hw hw'
    rcases hcases hk with rfl | hk <;> rcases hcases hk' with rfl | hk'
    · rfl
    · obtain rfl := Option.some.inj (hnew.1.symm.trans hw)
      exact absurd rfl (hne hk' ((hold hk'.1).1 ▸ hw'))
    · obtain rfl := Option.some.inj (hnew.1.symm.trans hw')
      exact absurd rfl (hne hk ((hold hk.1).1 ▸ hw))
    · exact h.inj k k' w hk hk' ((hold hk.1).1 ▸ hw) ((hold hk'.1).1 ▸ hw')
  · have hlt' := h.notified_lt k hask
    have hk' : c.Holds k := ⟨hlt', hk.2⟩
    have hw' : s.given[k]? = some w := (hold hlt').1 ▸ hw
    simpa [WasioHost.bindSlot, WasioHost.setFd, hne hk' hw'] using h.asked k w hk' hask hw'

/-- **A descriptor is closed**: its slot is free, and its entry stays. -/
theorem RelatedBy.close (h : RelatedBy cap O c s x) {v : ℕ} {fl : Freelist} (hk : c.Holds k)
    (hv : s.given[k]? = some v) (hmem : v ∈ O) (hrep : Freelist.Represents cap (O.erase v) fl) :
    RelatedBy cap (O.erase v) { c with closed := insert k c.closed }
      ⟨WasioHost.unbindSlot s.wfd v fl, s.given⟩ x := by
  have hcases : ∀ {j}, Client.Holds { c with closed := insert k c.closed } j →
      j ≠ k ∧ c.Holds j := fun hj => by
    obtain ⟨hlt, hclosed⟩ := hj
    have hout := Finset.mem_insert.not.mp hclosed
    exact ⟨fun he => hout (Or.inl he), hlt, fun hc => hout (Or.inr hc)⟩
  have hevents : ∀ w, ((WasioHost.unbindSlot s.wfd v fl).vfds w).events =
      (s.wfd.vfds w).events := by
    intro w
    rcases eq_or_ne w v with rfl | hw
    · simp [WasioHost.unbindSlot]
    · simp [WasioHost.unbindSlot, hw]
  refine ⟨h.table.unbind hmem hrep, h.pollin_eq, h.pollout_eq, fun w => ?_, ?_, h.opened_le,
    h.sparse_length, h.dense_length, h.capacity_eq, h.length_eq, h.entry, fun j hj => ?_,
    fun j j' w hj hj' => ?_, h.notified_lt, fun j w hj hask hw => ?_⟩
  · dsimp only
    rw [hevents]
    exact h.masks w
  · exact (Finset.card_le_card (Finset.erase_subset v O)).trans h.card_le
  · obtain ⟨hne, hold⟩ := hcases hj
    obtain ⟨w, d, hw, hd, hmem', hfd⟩ := h.slot j hold
    have hwv : w ≠ v := by
      rintro rfl
      exact hne (h.inj j k w hold hk hw hv)
    refine ⟨w, d, hw, hd, Finset.mem_erase.mpr ⟨hwv, hmem'⟩, ?_⟩
    simpa [WasioHost.unbindSlot, hwv] using hfd
  · exact h.inj j j' w (hcases hj).2 (hcases hj').2
  · dsimp only
    rw [hevents]
    exact h.asked j w (hcases hj).2 hask hw

/-- **The client asks to be notified**: the slot of `k` has its event bit, which is the one the
row asks for anyway. -/
theorem RelatedBy.register (h : RelatedBy cap O c s x) {v : ℕ} (hk : c.Holds k)
    (hv : s.given[k]? = some v) {N : Finset ℕ} (hN : N ⊆ insert k c.notified) :
    RelatedBy cap O { c with notified := N }
      ⟨{ s.wfd with
          vfds := WasioHost.addEvent (WasioHost.setFd s.wfd.vfds v (s.wfd.fds v)) v POLLIN },
        s.given⟩ x := by
  have hself : ((WasioHost.addEvent (WasioHost.setFd s.wfd.vfds v (s.wfd.fds v)) v POLLIN)
      v).events = POLLIN := by
    simp only [WasioHost.addEvent, WasioHost.setFd, Function.update_self]
    rcases h.masks v with hm | hm <;> rw [hm] <;> rfl
  have hother : ∀ w, w ≠ v →
      ((WasioHost.addEvent (WasioHost.setFd s.wfd.vfds v (s.wfd.fds v)) v POLLIN) w).events =
        (s.wfd.vfds w).events := by
    intro w hw
    simp [WasioHost.addEvent, WasioHost.setFd, hw]
  refine ⟨h.table.quiet (h.table.quiet_notify v POLLIN), h.pollin_eq, h.pollout_eq, fun w => ?_,
    h.card_le, h.opened_le, h.sparse_length, h.dense_length, h.capacity_eq, h.length_eq, h.entry,
    h.slot, h.inj, fun j hj => ?_, fun j w hj hask hw => ?_⟩
  · rcases eq_or_ne w v with rfl | hw
    · exact Or.inr hself
    · dsimp only
      rw [hother w hw]
      exact h.masks w
  · rcases Finset.mem_insert.mp (hN hj) with rfl | hj
    · exact hk.1
    · exact h.notified_lt j hj
  · rcases eq_or_ne w v with rfl | hwv
    · exact hself
    · dsimp only
      rw [hother w hwv]
      refine h.asked j w hj ((Finset.mem_insert.mp (hN hask)).resolve_left ?_) hw
      rintro rfl
      exact hwv (Option.some.inj (hw.symm.trans hv))

theorem RelatedBy.notifyRecv (h : RelatedBy cap O c s x) {v : ℕ} (hk : c.Holds k)
    (hv : s.given[k]? = some v) :
    RelatedBy cap O { c with notified := insert k c.notified }
      ⟨(wasioNotifyRecv s.wfd v).2, s.given⟩ x := by
  have hreg := h.register hk hv le_rfl
  rw [← h.pollin_eq] at hreg
  exact hreg

/-- What is asked for is what there is to receive, here too. -/
theorem RelatedBy.notifySend (h : RelatedBy cap O c s x) {v : ℕ} (hk : c.Holds k)
    (hv : s.given[k]? = some v) :
    RelatedBy cap O c ⟨(wasioNotifySend s.wfd v).2, s.given⟩ x := by
  have hreg := h.register hk hv (Finset.subset_insert k c.notified)
  rw [← h.pollout_eq] at hreg
  exact hreg

/-- **A poll** changes no descriptor and no mask. -/
theorem RelatedBy.poll (h : RelatedBy cap O c s x) (timeout : ℤ) (sparse dense : ℕ → BitVec 16)
    (host host' : HostAnswer) :
    RelatedBy cap O c ⟨(wasioPoll s.wfd timeout sparse host).2, s.given⟩
      ⟨(HostPoll.wasioPoll x.wfd timeout dense host').2, x.given⟩ := by
  have hquiet := WasioHost.quiet_wasioPoll s.wfd timeout sparse host
  have hevents : ∀ v, ((wasioPoll s.wfd timeout sparse host).2.vfds v).events =
      (s.wfd.vfds v).events := by
    intro v
    rw [wasioPoll]
    split_ifs <;> rfl
  have hrow : ∀ k, ((HostPoll.wasioPoll x.wfd timeout dense host').2.fds k).fd =
      (x.wfd.fds k).fd ∧
      ((HostPoll.wasioPoll x.wfd timeout dense host').2.fds k).events = (x.wfd.fds k).events := by
    intro k
    rw [HostPoll.wasioPoll]
    split_ifs
    · exact ⟨rfl, rfl⟩
    · dsimp only
      split_ifs <;> exact ⟨rfl, rfl⟩
  obtain ⟨-, hlen, hcapacity⟩ := HostPoll.entries_wasioPoll x.wfd timeout dense host'
  refine ⟨h.table.quiet hquiet, hquiet.pollin_eq.trans h.pollin_eq,
    hquiet.pollout_eq.trans h.pollout_eq, fun v => ?_, h.card_le, h.opened_le, h.sparse_length,
    h.dense_length, hcapacity.trans h.capacity_eq, hlen.trans h.length_eq, fun k d hd => ?_,
    fun k hk => ?_, h.inj, h.notified_lt, fun k v hk hask hv => ?_⟩
  · dsimp only
    rw [hevents]
    exact h.masks v
  · dsimp only
    rw [(hrow k).1, (hrow k).2]
    exact h.entry k d hd
  · obtain ⟨v, d, hv, hd, hmem, hfd⟩ := h.slot k hk
    exact ⟨v, d, hv, hd, hmem, hquiet.fds_eq ▸ hfd⟩
  · dsimp only
    rw [hevents]
    exact h.asked k v hk hask hv

/-! ### One operation -/

/-- An operation on the table that hands out no descriptor. -/
theorem Sparse.step_of_none {op op' : Op ℕ} {r : WasioHost.Reply} {wfd : WasioPollfd}
    (hop : op.resolve s.given = some op') (hper : WasioHost.perform s.wfd op'.onTable =
      some (r, wfd)) (hvfd : r.vfd = none) : s.step op = some (r, ⟨wfd, s.given⟩) := by
  simp only [Sparse.step, hop, Option.bind_some, hper, Option.map_some, hvfd, Option.toList_none,
    List.append_nil]

/-- And one on the row. -/
theorem Dense.step_of_none {op : Op ℕ} {op' : Op ℤ} {o : HostPoll.Op} {r : HostPoll.Reply}
    {wfd : HostPoll.WasioPollfd} (hop : op.resolve x.given = some op') (hrow : op'.onRow = some o)
    (hper : HostPoll.perform x.wfd o = some (r, wfd)) (hfd : r.fd = none) :
    x.step op = some (some r, ⟨wfd, x.given⟩) := by
  simp only [Dense.step, hop, Option.bind_some, hrow, hper, Option.map_some, hfd,
    Option.toList_none, List.append_nil]

/-- The row does without the operation. -/
theorem Dense.step_of_onRow {op : Op ℕ} {op' : Op ℤ} (hop : op.resolve x.given = some op')
    (hrow : op'.onRow = none) : x.step op = some (none, x) := by
  simp only [Dense.step, hop, Option.bind_some, hrow]

/-- A listener or a connection that the host has not got. -/
theorem Client.handed_of_neg {host : HostAnswer} (h : host.ret < 0) : c.handed host = c :=
  if_pos h

theorem Client.handed_of_nonneg {host : HostAnswer} (h : ¬host.ret < 0) :
    c.handed host = { c with opened := c.opened + 1 } :=
  if_neg h

theorem RelatedBy.listen_agree (h : RelatedBy cap O c s x) (hcap : cap % 32 = 0)
    (hroom : c.opened < cap) (port backlog : ℤ) (host : HostAnswer) :
    ∃ r t r' y, s.step (.listen port backlog host) = some (r, t) ∧
      x.step (.listen port backlog host) = some (r', y) ∧
      Agree cap c (.listen port backlog host) r r' ∧ Related cap (c.handed host) t y := by
  have hrow : x.wfd.length < x.wfd.capacity := by rw [h.length_eq, h.capacity_eq]; exact hroom
  have hlt : x.wfd.capacity < 2 ^ 32 := h.capacity_eq ▸ h.table.rep.lt
  have hsparse : s.step (.listen port backlog host) =
      some ((wasioListen s.wfd port backlog host).1, ⟨(wasioListen s.wfd port backlog host).2,
        s.given ++ (wasioListen s.wfd port backlog host).1.vfd.toList⟩) := rfl
  have hdense : x.step (.listen port backlog host) =
      (HostPoll.wasioListen x.wfd port backlog host).map fun (r, wfd) =>
        (some r, ⟨wfd, x.given ++ r.fd.toList⟩) := rfl
  by_cases hneg : host.ret < 0
  · rw [wasioListen, if_pos hneg] at hsparse
    rw [HostPoll.wasioListen_of_neg hrow port backlog hneg] at hdense
    refine ⟨_, _, _, _, hsparse, hdense, ⟨_, rfl, rfl, rfl, rfl, rfl⟩, O, ?_⟩
    rw [Client.handed_of_neg hneg]
    simpa using h
  · obtain ⟨v, fl, hw, hv, hvlt, hrep⟩ := h.wrap_cases hcap hroom host.ret
    rw [wasioListen, if_neg hneg, hw] at hsparse
    rw [HostPoll.wasioListen_of_nonneg hrow hlt port backlog hneg] at hdense
    refine ⟨_, _, _, _, hsparse, hdense, ⟨_, rfl, rfl, rfl, rfl, rfl⟩, insert v O, ?_⟩
    rw [Client.handed_of_nonneg hneg]
    exact h.handed hv hvlt (Int.not_lt.mp hneg) hrep hroom

theorem RelatedBy.accept_agree (h : RelatedBy cap O c s x) (hcap : cap % 32 = 0)
    (hk : c.Holds k) (hroom : c.opened < cap) (host : HostAnswer) :
    ∃ r t r' y, s.step (.accept k host) = some (r, t) ∧ x.step (.accept k host) = some (r', y) ∧
      Agree cap c (.accept k host) r r' ∧ Related cap (c.handed host) t y := by
  have hrow : x.wfd.length < x.wfd.capacity := by rw [h.length_eq, h.capacity_eq]; exact hroom
  have hlt : x.wfd.capacity < 2 ^ 32 := h.capacity_eq ▸ h.table.rep.lt
  obtain ⟨v, d, hv, hd, hmem, hfd⟩ := h.slot k hk
  have hsparse : s.step (.accept k host) =
      some ((wasioAccept s.wfd v host).1, ⟨(wasioAccept s.wfd v host).2,
        s.given ++ (wasioAccept s.wfd v host).1.vfd.toList⟩) := by
    simp only [Sparse.step, Op.resolve, hv, Option.map_some, Option.bind_some, Op.onTable,
      WasioHost.perform]
  have hdense : x.step (.accept k host) = (HostPoll.wasioAccept x.wfd d host).map fun (r, wfd) =>
      (some r, ⟨wfd, x.given ++ r.fd.toList⟩) := by
    simp only [Dense.step, Op.resolve, hd, Option.map_some, Option.bind_some, Op.onRow,
      HostPoll.perform]
  by_cases hneg : host.ret < 0
  · rw [wasioAccept, if_pos hneg, hfd] at hsparse
    rw [HostPoll.wasioAccept_of_neg hrow d hneg] at hdense
    refine ⟨_, _, _, _, hsparse, hdense, ⟨_, rfl, rfl, rfl, rfl, rfl⟩, O, ?_⟩
    rw [Client.handed_of_neg hneg]
    simpa using h
  · obtain ⟨w, fl, hw, hwO, hwlt, hrep⟩ := h.wrap_cases hcap hroom host.ret
    rcases h.table.accept_cases hcap v host with ⟨u, fl', hacc, hret, hu, hult, hrep'⟩ |
      ⟨res, -, hacc⟩
    · rw [hacc, hfd] at hsparse
      rw [HostPoll.wasioAccept_of_nonneg hrow hlt d hneg] at hdense
      refine ⟨_, _, _, _, hsparse, hdense, ⟨_, rfl, rfl, rfl, rfl, rfl⟩, insert u O, ?_⟩
      rw [Client.handed_of_nonneg hneg]
      exact h.handed hu.1 hult hret hrep' hroom
    · -- a slot was found, so the accept has not failed
      rw [wasioAccept, if_neg hneg, hw] at hacc
      cases hacc

/-- What `wasio_recv` answers in the two backends, for the same descriptor of the host. -/
theorem recv_agree {wfd : WasioPollfd} {v : ℕ} {d : ℤ} (hfd : wfd.fds v = d) (k len : ℕ)
    (host : HostAnswer) :
    Agree cap c (.recv k len host) (wasioRecv wfd v len host).1
        (some (HostPoll.wasioRecv d len host)) ∧
      (wasioRecv wfd v len host).1.vfd = none ∧ (HostPoll.wasioRecv d len host).fd = none := by
  rw [wasioRecv, HostPoll.wasioRecv, hfd]
  rcases lt_trichotomy host.ret 0 with hret | hret | hret
  · rw [if_pos hret, if_neg hret.ne, if_pos hret]
    refine ⟨⟨_, rfl, ?_⟩, rfl, rfl⟩
    rw [if_neg hret.ne]
    exact ⟨rfl, rfl, rfl, rfl⟩
  · rw [if_neg hret.not_lt, if_pos hret]
    refine ⟨⟨_, rfl, ?_⟩, rfl, rfl⟩
    rw [if_pos hret]
    exact ⟨rfl, rfl, by rw [hret]; rfl, rfl⟩
  · rw [if_neg hret.not_gt, if_neg hret.ne', if_neg hret.not_gt]
    refine ⟨⟨_, rfl, ?_⟩, rfl, rfl⟩
    rw [if_neg hret.ne']
    exact ⟨rfl, rfl, rfl, rfl⟩

theorem send_agree {wfd : WasioPollfd} {v : ℕ} {d : ℤ} (hfd : wfd.fds v = d) (len : ℕ)
    (host : HostAnswer) :
    Alike (wasioSend wfd v len host).1 (HostPoll.wasioSend d len host) ∧
      (wasioSend wfd v len host).1.vfd = none ∧ (HostPoll.wasioSend d len host).fd = none := by
  rw [wasioSend, HostPoll.wasioSend, hfd]
  split_ifs
  · exact ⟨⟨rfl, rfl, rfl, rfl⟩, rfl, rfl⟩
  · exact ⟨⟨rfl, rfl, rfl, rfl⟩, rfl, rfl⟩

/-- Neither operation on a connection changes a table. -/
theorem wasioRecv_snd (wfd : WasioPollfd) (v len : ℕ) (host : HostAnswer) :
    (wasioRecv wfd v len host).2 = wfd := by
  rw [wasioRecv]
  split_ifs <;> rfl

theorem wasioSend_snd (wfd : WasioPollfd) (v len : ℕ) (host : HostAnswer) :
    (wasioSend wfd v len host).2 = wfd := by
  rw [wasioSend]
  split_ifs <;> rfl

/-- What `wasio_poll` answers, in each of the two backends. -/
theorem wasioPoll_fst (wfd : WasioPollfd) (timeout : ℤ) (revents : ℕ → BitVec 16)
    (host : HostAnswer) :
    (wasioPoll wfd timeout revents host).1.call = some (.poll wfd.capacity timeout) ∧
      ((wasioPoll wfd timeout revents host).1.result,
        (wasioPoll wfd timeout revents host).1.count) = polled host ∧
      (wasioPoll wfd timeout revents host).1.vfd = none := by
  rw [wasioPoll, polled]
  split_ifs <;> exact ⟨rfl, rfl, rfl⟩

theorem wasioPoll_row_fst (wfd : HostPoll.WasioPollfd) (timeout : ℤ)
    (revents : ℕ → BitVec 16) (host : HostAnswer) :
    (HostPoll.wasioPoll wfd timeout revents host).1.call = .poll wfd.length timeout ∧
      ((HostPoll.wasioPoll wfd timeout revents host).1.result,
        (HostPoll.wasioPoll wfd timeout revents host).1.count) = polled host ∧
      (HostPoll.wasioPoll wfd timeout revents host).1.fd = none := by
  rw [HostPoll.wasioPoll, polled]
  split_ifs <;> exact ⟨rfl, rfl, rfl⟩

theorem RelatedBy.close_agree (h : RelatedBy cap O c s x) (hk : c.Holds k) {host : HostAnswer}
    (hret : host.ret ≤ 0) :
    ∃ r t r' y, s.step (.close k host) = some (r, t) ∧ x.step (.close k host) = some (r', y) ∧
      Agree cap c (.close k host) r r' ∧
      Related cap (if host.ret = 0 then { c with closed := insert k c.closed } else c) t y := by
  obtain ⟨v, d, hv, hd, hmem, hfd⟩ := h.slot k hk
  have hsync : (s.wfd.vfds v).fd = d := (h.table.sync v).trans hfd
  have hsparse : s.step (.close k host) =
      (wasioClose s.wfd v host).map fun (r, wfd) => (r, ⟨wfd, s.given ++ r.vfd.toList⟩) := by
    simp only [Sparse.step, Op.resolve, hv, Option.map_some, Option.bind_some, Op.onTable,
      WasioHost.perform]
  have hdense : x.step (.close k host) = some (some (HostPoll.wasioClose d host),
      ⟨x.wfd, x.given ++ (HostPoll.wasioClose d host).fd.toList⟩) := by
    simp only [Dense.step, Op.resolve, hd, Option.map_some, Option.bind_some, Op.onRow,
      HostPoll.perform]
  rcases h.table.close_cases (h.table.out_lt v hmem) host with ⟨hne, res, hres, hclose⟩ |
    ⟨hzero, fl, hrep, hclose⟩
  · have hneg : host.ret < 0 := lt_of_le_of_ne hret hne
    have hresult : res = translateError host.errno := by
      rw [wasioClose, if_pos hne] at hclose
      exact (congrArg WasioHost.Reply.result (Prod.mk.inj (Option.some.inj hclose)).1).symm
    rw [hclose, hsync] at hsparse
    rw [HostPoll.wasioClose, if_pos hneg] at hdense
    refine ⟨_, _, _, _, hsparse, hdense, ⟨_, rfl, rfl, hresult, rfl, rfl⟩, O, ?_⟩
    rw [if_neg hne]
    simpa using h
  · rw [hclose, hsync] at hsparse
    rw [HostPoll.wasioClose, if_neg (by omega)] at hdense
    refine ⟨_, _, _, _, hsparse, hdense, ⟨_, rfl, rfl, rfl, rfl, rfl⟩, O.erase v, ?_⟩
    rw [if_pos hzero]
    simpa using h.close hk hv hmem hrep

/-- **The two backends agree.** -/
theorem agreement (hcap : cap % 32 = 0) :
    Lts.Agreement (Client.step cap) (Related cap) (Agree cap) Sparse.step Dense.step := by
  rintro c s x op c' ⟨O, h⟩ hop
  cases op with
  | listen port backlog host =>
    obtain ⟨hroom, hc⟩ := Option.ite_none_right_eq_some.mp hop
    obtain rfl := Option.some.inj hc
    exact h.listen_agree hcap hroom port backlog host
  | poll timeout sparse dense host host' =>
    obtain rfl := Option.some.inj hop
    obtain ⟨hcall, hpolled, hvfd⟩ := wasioPoll_fst s.wfd timeout sparse host
    obtain ⟨hcall', hpolled', hfd⟩ := wasioPoll_row_fst x.wfd timeout dense host'
    rw [h.table.capacity_eq] at hcall
    rw [h.length_eq] at hcall'
    have hsparse : s.step (.poll timeout sparse dense host host') =
        some ((wasioPoll s.wfd timeout sparse host).1,
          ⟨(wasioPoll s.wfd timeout sparse host).2, s.given⟩) :=
      Sparse.step_of_none rfl rfl hvfd
    have hdense : x.step (.poll timeout sparse dense host host') =
        some (some (HostPoll.wasioPoll x.wfd timeout dense host').1,
          ⟨(HostPoll.wasioPoll x.wfd timeout dense host').2, x.given⟩) :=
      Dense.step_of_none rfl rfl rfl hfd
    exact ⟨_, _, _, _, hsparse, hdense, ⟨_, rfl, hcall, hcall', hpolled, hpolled'⟩, O,
      h.poll timeout sparse dense host host'⟩
  | accept k host =>
    obtain ⟨⟨hk, hroom⟩, hc⟩ := Option.ite_none_right_eq_some.mp hop
    obtain rfl := Option.some.inj hc
    exact h.accept_agree hcap hk hroom host
  | recv k len host =>
    obtain ⟨hk, hc⟩ := Option.ite_none_right_eq_some.mp hop
    obtain rfl := Option.some.inj hc
    obtain ⟨v, d, hv, hd, -, hfd⟩ := h.slot k hk
    obtain ⟨hagree, hvfd, hfd'⟩ := recv_agree hfd k len host
    have hop' : (Op.recv k len host).resolve s.given = some (.recv v len host) := by
      rw [Op.resolve, hv]
      rfl
    have hsparse : s.step (.recv k len host) = some ((wasioRecv s.wfd v len host).1, s) :=
      Sparse.step_of_none hop' (congrArg some (Prod.ext rfl (wasioRecv_snd s.wfd v len host))) hvfd
    have hdense : x.step (.recv k len host) = some (some (HostPoll.wasioRecv d len host), x) :=
      Dense.step_of_none (by rw [Op.resolve, hd]; rfl) rfl rfl hfd'
    exact ⟨_, _, _, _, hsparse, hdense, hagree, O, h⟩
  | send k len host =>
    obtain ⟨hk, hc⟩ := Option.ite_none_right_eq_some.mp hop
    obtain rfl := Option.some.inj hc
    obtain ⟨v, d, hv, hd, -, hfd⟩ := h.slot k hk
    obtain ⟨halike, hvfd, hfd'⟩ := send_agree hfd len host
    have hop' : (Op.send k len host).resolve s.given = some (.send v len host) := by
      rw [Op.resolve, hv]
      rfl
    have hsparse : s.step (.send k len host) = some ((wasioSend s.wfd v len host).1, s) :=
      Sparse.step_of_none hop' (congrArg some (Prod.ext rfl (wasioSend_snd s.wfd v len host))) hvfd
    have hdense : x.step (.send k len host) = some (some (HostPoll.wasioSend d len host), x) :=
      Dense.step_of_none (by rw [Op.resolve, hd]; rfl) rfl rfl hfd'
    exact ⟨_, _, _, _, hsparse, hdense, ⟨_, rfl, halike⟩, O, h⟩
  | close k host =>
    obtain ⟨⟨hk, hret⟩, hc⟩ := Option.ite_none_right_eq_some.mp hop
    obtain rfl := Option.some.inj hc
    exact h.close_agree hk hret
  | notifyRecv k =>
    obtain ⟨hk, hc⟩ := Option.ite_none_right_eq_some.mp hop
    obtain rfl := Option.some.inj hc
    obtain ⟨v, d, hv, hd, -, -⟩ := h.slot k hk
    have hsparse : s.step (.notifyRecv k) =
        some (⟨none, .ok, none, none⟩, ⟨(wasioNotifyRecv s.wfd v).2, s.given⟩) :=
      Sparse.step_of_none (by rw [Op.resolve, hv]; rfl) rfl rfl
    have hdense : x.step (.notifyRecv k) = some (none, x) :=
      Dense.step_of_onRow (by rw [Op.resolve, hd]; rfl) rfl
    exact ⟨_, _, _, _, hsparse, hdense, ⟨rfl, rfl, rfl⟩, O, h.notifyRecv hk hv⟩
  | notifySend k =>
    obtain ⟨hk, hc⟩ := Option.ite_none_right_eq_some.mp hop
    obtain rfl := Option.some.inj hc
    obtain ⟨v, d, hv, hd, -, -⟩ := h.slot k hk
    have hsparse : s.step (.notifySend k) =
        some (⟨none, .ok, none, none⟩, ⟨(wasioNotifySend s.wfd v).2, s.given⟩) :=
      Sparse.step_of_none (by rw [Op.resolve, hv]; rfl) rfl rfl
    have hdense : x.step (.notifySend k) = some (none, x) :=
      Dense.step_of_onRow (by rw [Op.resolve, hd]; rfl) rfl
    exact ⟨_, _, _, _, hsparse, hdense, ⟨rfl, rfl, rfl⟩, O, h.notifySend hk hv⟩

/-- Both are fresh. -/
theorem related_init {s₀ : WasioPollfd} (fds : ℕ → Pollfd) (hlt : cap < 2 ^ 32)
    (h : wasioInit cap true = (.ok, some s₀)) :
    Related cap .start ⟨s₀, []⟩ ⟨{ capacity := cap, length := 0, fds := fds }, []⟩ := by
  obtain ⟨hevents, hpollin, hpollout⟩ := WasioHost.statics_init h
  refine ⟨∅, WasioHost.tableInv_init hlt h, hpollin, hpollout, fun v => Or.inl (hevents v), le_rfl,
    Nat.zero_le cap, rfl, rfl, rfl, rfl, fun k d hd => ?_, fun k hk => ?_, fun k k' v hk => ?_,
    fun k hk => ?_, fun k v hk => ?_⟩
  · exact absurd hd (by simp)
  · exact absurd hk.1 (Nat.not_lt_zero k)
  · exact absurd hk.1 (Nat.not_lt_zero k)
  · exact absurd hk (Finset.notMem_empty k)
  · exact absurd hk.1 (Nat.not_lt_zero k)

end Backends

open Backends

/-- **The two backends are one interface.** A client that uses no descriptor it has closed, and
is handed no more descriptors than there is room for, makes the same calls of the host through
`wasio_host.c` as through `host_poll.c`, and is answered alike, in every run, but for a poll,
where the row has the closed descriptors as well and each backend reports what its own array
gave, and for a connection that the peer has closed. At the end what the client holds is bound
in the table to the descriptor that has its entry in the poll array, and the two arrays ask the
host for the same events of it where the client has asked to be notified. -/
theorem wasio_backends_agree (cap : ℕ) (hcap : cap % 32 = 0) (hlt : cap < 2 ^ 32)
    (s₀ : WasioPollfd) (hinit : wasioInit cap true = (.ok, some s₀)) (fds : ℕ → Pollfd)
    (ops : List (Op ℕ)) (c : Client) (hops : Lts.exec (Client.step cap) .start ops = some c) :
    ∃ l s m x, Lts.answer Sparse.step ⟨s₀, []⟩ ops = some (l, s) ∧
      Lts.answer Dense.step ⟨{ capacity := cap, length := 0, fds := fds }, []⟩ ops = some (m, x) ∧
      Lts.Answered (Client.step cap) (Agree cap) .start l m ∧
      ∀ k, c.Holds k → ∃ v d, s.given[k]? = some v ∧ (s.wfd.vfds v).fd = d ∧ s.wfd.fds v = d ∧
        (x.wfd.fds k).fd = d ∧
        (k ∈ c.notified → (s.wfd.vfds v).events = (x.wfd.fds k).events) := by
  obtain ⟨l, s, m, x, hl, hm, ⟨O, h⟩, hall⟩ :=
    (agreement hcap).answer hops (related_init fds hlt hinit)
  refine ⟨l, s, m, x, hl, hm, hall, fun k hk => ?_⟩
  obtain ⟨v, d, hv, hd, -, hfd⟩ := h.slot k hk
  obtain ⟨hentry, hevents⟩ := h.entry k d hd
  exact ⟨v, d, hv, (h.table.sync v).trans hfd, hfd, hentry, fun hask =>
    (h.asked k v hk hask hv).trans hevents.symm⟩

/-- A connection that comes, is closed by its peer and then by the client, and another, for
which the host has the same descriptor. In between there is a poll, which reports the closed
descriptor, with `POLLNVAL`, in the row alone. -/
def Backends.again : List (Op ℕ) :=
  [.listen 8080 1000 ⟨3, 0⟩, .notifyRecv 0, .accept 0 ⟨5, 0⟩, .recv 1 10 ⟨0, 0⟩, .close 1 ⟨0, 0⟩,
    .poll 1000 (fun v => if v = 0 then POLLIN else 0)
      (fun k => if k = 0 then POLLIN else 0x020) ⟨1, 0⟩ ⟨2, 0⟩,
    .accept 0 ⟨5, 0⟩, .notifySend 2, .send 2 10 ⟨-1, 11⟩]

theorem wasio_backends_agree_again :
    ∃ s₀ l s m x, Lts.answer Sparse.step ⟨s₀, []⟩ Backends.again = some (l, s) ∧
      Lts.answer Dense.step ⟨{ capacity := 32, length := 0, fds := fun _ => ⟨0, 0, 0⟩ }, []⟩
        Backends.again = some (m, x) ∧
      Lts.Answered (Client.step 32) (Agree 32) .start l m := by
  obtain ⟨s₀, hinit⟩ : ∃ s₀, wasioInit 32 true = (.ok, some s₀) := ⟨_, rfl⟩
  obtain ⟨l, s, m, x, hl, hm, hall, -⟩ := wasio_backends_agree 32 (by decide) (by decide) s₀ hinit
    (fun _ => ⟨0, 0, 0⟩) Backends.again ⟨3, {1}, {0}⟩ rfl
  exact ⟨s₀, l, s, m, x, hl, hm, hall⟩

end Waeio
