import Waeio.Http.Response

/-!
# Answering a request

What the servers in `examples/httpserver` have in common between the receipt of a
request and the sending of its response: they hand their buffer to
`phr_parse_request`, and the response depends on what it returns
(`Waeio.Http.Verdict`).

`phr_parse_request` is a function of a library. It is a parameter, a function of the
bytes it is given; the pointer `path` it stores is given by where in the buffer it
points to.

In the servers with fibers all buffers are static and shared by the fibers
(`Waeio.Http.Globals`), and a fiber resets them before each receive.
-/

namespace Waeio

namespace Http

/-- What `phr_parse_request` returns and stores. -/
structure ParseResult where
  /-- The result. -/
  rc : ℤ
  /-- `*path`, if it is stored. -/
  path : Option ℕ
  /-- `*path_len` -/
  pathLen : ℕ
  /-- `*num_headers` -/
  numHeaders : ℕ
  deriving DecidableEq, Repr

/-- `phr_parse_request`, as a function of the bytes it is given. -/
abbrev Parser := List UInt8 → ParseResult

/-- `strncmp(path, text, strlen(text)) == 0`, for a pointer into the buffer. -/
def startsWith (buffer : ℕ → UInt8) (path : Option ℕ) (text : String) : Bool :=
  match path with
  | some i => ((List.range (bytes text).length).map fun k => buffer (i + k)) == bytes text
  | none => false

/-- The responses, by what becomes of the request. The last is that of `httpserver.c`, for
all that fails. -/
inductive Verdict
  | ok | quit | notFound | badRequest | tooLarge | failure
  deriving DecidableEq, Repr

/-- **What becomes of a request**, after it was parsed. -/
def verdict (reqbuf : ℕ → UInt8) (r : ParseResult) : Verdict :=
  if 0 < r.rc then
    if r.pathLen = 1 ∧ startsWith reqbuf r.path "/" then .ok
    else if r.pathLen = (bytes "/quit").length ∧ startsWith reqbuf r.path "/quit" then .quit
    else .notFound
  else if r.rc = -1 then .badRequest
  else .tooLarge

/-- **The response to it**: its length, or `-1`, and the buffer afterwards. -/
def Verdict.response (buffer : ℕ → UInt8) (buflen : ℕ) (tm : Tm) : Verdict → ℤ × (ℕ → UInt8)
  | .ok => responseOk buffer buflen (some responseBody) (bytes responseBody).length tm
  | .quit => responseOk buffer buflen (some "OK bye...\n") (bytes "OK bye...\n").length tm
  | .notFound => responseNotfound buffer buflen none 0 tm
  | .badRequest => responseBadrequest buffer buflen none 0 tm
  | .tooLarge => responseToolarge buffer buflen none 0 tm
  | .failure => responseErr buffer buflen (some "I/O failure") (bytes "I/O failure").length tm

/-- The first `n` bytes of a buffer. -/
def contents (buffer : ℕ → UInt8) (n : ℕ) : List UInt8 := (List.range n).map buffer

@[simp] theorem length_contents (buffer : ℕ → UInt8) (n : ℕ) :
    (contents buffer n).length = n := by
  simp [contents]

/-- The bytes behind the first `m`. -/
theorem contents_add (buffer : ℕ → UInt8) (m k : ℕ) :
    contents buffer (m + k) = contents buffer m ++ contents (fun i => buffer (m + i)) k := by
  simp [contents, List.range_add, Function.comp_def]

theorem contents_prefix_iff {x y : ℕ → UInt8} {k n : ℕ} :
    contents x k <+: contents y n ↔ k ≤ n ∧ ∀ i < k, y i = x i := by
  constructor
  · intro h
    have hle := h.length_le
    rw [length_contents, length_contents] at hle
    refine ⟨hle, fun i hi => ?_⟩
    have hget := h.getElem (i := i) (by rwa [length_contents])
    simpa [contents] using hget.symm
  · rintro ⟨hle, heq⟩
    obtain ⟨d, rfl⟩ := Nat.exists_eq_add_of_le hle
    rw [contents_add]
    have hsame : contents x k = contents y k :=
      List.map_congr_left fun i hi => (heq i (List.mem_range.mp hi)).symm
    rw [hsame]
    exact List.prefix_append _ _

/-- **Sending the first `k` bytes of a buffer again**, behind the first `m`: it goes on with
what the buffer holds exactly if that repeats the beginning. -/
theorem contents_append_prefix_iff {buffer : ℕ → UInt8} {m k n : ℕ} (hm : m ≤ n) :
    contents buffer m ++ contents buffer k <+: contents buffer n ↔
      m + k ≤ n ∧ ∀ i < k, buffer (m + i) = buffer i := by
  obtain ⟨d, rfl⟩ := Nat.exists_eq_add_of_le hm
  rw [contents_add, List.prefix_append_right_inj, contents_prefix_iff, Nat.add_le_add_iff_left]

/-- What was written at the beginning of a buffer is there. -/
theorem contents_write (buffer : ℕ → UInt8) (text : List UInt8) :
    contents (write buffer 0 text) text.length = text := by
  refine List.ext_getElem (by rw [length_contents]) fun i hi hi' => ?_
  simp [contents, write, hi', List.getD_eq_getElem?_getD]

theorem contents_makeResponse {buflen : ℕ} (hb : buflen < 2 ^ 32) (x y : ℕ → UInt8)
    (httpcode : String) (body : Option String) (contentLength : ℕ) (tm : Tm) :
    (makeResponse x buflen httpcode body contentLength tm).1 =
        (makeResponse y buflen httpcode body contentLength tm).1 ∧
      contents (makeResponse x buflen httpcode body contentLength tm).2
          (makeResponse x buflen httpcode body contentLength tm).1.toNat =
        contents (makeResponse y buflen httpcode body contentLength tm).2
          (makeResponse y buflen httpcode body contentLength tm).1.toNat := by
  obtain ⟨hlen, hbytes⟩ := makeResponse_agree hb x y httpcode body contentLength tm
  refine ⟨hlen, ?_⟩
  rw [← hlen]
  exact List.map_congr_left fun k hk => hbytes k (List.mem_range.mp hk)

/-- **The response to a request** does not depend on what was in the buffer before. -/
theorem Verdict.contents_response {buflen : ℕ} (hb : buflen < 2 ^ 32) (x y : ℕ → UInt8) (tm : Tm)
    (v : Verdict) :
    (v.response x buflen tm).1 = (v.response y buflen tm).1 ∧
      contents (v.response x buflen tm).2 (v.response x buflen tm).1.toNat =
        contents (v.response y buflen tm).2 (v.response y buflen tm).1.toNat := by
  cases v <;>
    simp only [Verdict.response, responseOk, responseNotfound, responseBadrequest,
      responseToolarge, responseErr] <;>
    exact contents_makeResponse hb x y _ _ _ tm

/-! ### The static variables of the servers with fibers -/

/-- `BUFFER_SIZE` -/
def BUFFER_SIZE : ℕ := 8192

/-- The static variables that hold a request and its response. -/
structure Globals where
  /-- `reqbuf` -/
  reqbuf : ℕ → UInt8
  /-- `resbuf` -/
  resbuf : ℕ → UInt8
  /-- `path`, by where in `reqbuf` it points to; `none` is `NULL`. -/
  path : Option ℕ
  /-- `path_len` -/
  pathLen : ℕ

/-- The variables at the start of the program. -/
def Globals.init : Globals := ⟨fun _ => 0, fun _ => 0, none, 0⟩

/-- `reset_globals`: all of them are as they were at the start. -/
def resetGlobals : Globals → Globals := fun _ => .init

/-- What a receive that succeeds does to `reqbuf`. -/
def Globals.received (g : Globals) (data : List UInt8) : Globals :=
  { g with reqbuf := write g.reqbuf 0 data }

/-- **From a received request to its response**, in `handle_connection`: the variables
afterwards, whether `end_server` is set, and the length of the response, unless the
function returns without one. -/
def answer (phr : Parser) (tm : Tm) (g : Globals) : Globals × Bool × Option ℕ :=
  let r := phr (contents g.reqbuf BUFFER_SIZE)
  let g := { g with path := r.path, pathLen := r.pathLen }
  if r.numHeaders = 0 then (g, false, none)
  else
    let v := verdict g.reqbuf r
    let (rc, resbuf) := v.response g.resbuf BUFFER_SIZE tm
    let g := { g with resbuf := resbuf }
    if rc = -1 then (g, v = .quit, none) else (g, v = .quit, some rc.toNat)

end Http

end Waeio
