import Waeio.Http.Reading
import Waeio.HttpServer.Basic

/-!
# The responses, read back

Most of the servers answer a request by its `Waeio.Http.Verdict`. `handle_connection` of
`httpserver.c` has a number for each outcome instead, and one response, `response_err`, that
the others do not have (`Waeio.HttpServer.outcome`). A client makes of each of these
responses what it is meant to (`Waeio.response_readReply`).

What a response says of the time depends on what `gmtime` returns, and so does its length.
The fields of the time are taken to have as many digits as are printed of them
(`Waeio.Http.Tm.Proper`).
-/

namespace Waeio

namespace HttpServer

open Http (Tm Verdict)

/-- **The response that is due for an outcome** of `handle_connection`. -/
def outcome (ans : ℤ) : Verdict :=
  if ans = 1 then .ok else if ans = 2 then .quit else if ans = 0 then .notFound else .failure

/-- It is built in the buffer of the request. -/
theorem response_eq (ans : ℤ) (reqbuf : ℕ → UInt8) (tm : Tm) :
    response ans reqbuf tm = (outcome ans).response reqbuf BUFFER_SIZE tm := by
  rw [response, outcome]
  split_ifs <;> rfl

end HttpServer

open Http

/-- **Every response of the servers is complete, and read back**: in a buffer of more than
2200 bytes it fits, and a client finds the status, the fields and the body of the outcome in
its bytes, and what comes behind them on the connection behind it. So it does in the bytes
that `handle_connection` of `httpserver.c` builds in the buffer of the request, whatever the
outcome is. -/
theorem response_readReply (buffer : ℕ → UInt8) (tm : Tm) (htm : tm.Proper) :
    (∀ (v : Verdict) (buflen : ℕ), buflen < 2 ^ 32 → 2200 < buflen →
      ∃ n : ℕ, (v.response buffer buflen tm).1 = n ∧ ∀ rest,
        readReply (contents (v.response buffer buflen tm).2 n ++ rest) =
          some (v.reply tm, rest)) ∧
    ∀ ans : ℤ, ∃ n : ℕ, (HttpServer.response ans buffer tm).1 = n ∧ ∀ rest,
      readReply (contents (HttpServer.response ans buffer tm).2 n ++ rest) =
        some ((HttpServer.outcome ans).reply tm, rest) := by
  refine ⟨fun v buflen hb hroom => v.response_read buffer hb hroom htm, fun ans => ?_⟩
  rw [HttpServer.response_eq]
  exact (HttpServer.outcome ans).response_read buffer (by decide) (by decide) htm

/-- The response to a request to quit, and the one of `httpserver.c` to a request that cannot
be parsed. -/
theorem response_readReply_quit :
    (∃ n : ℕ, (Verdict.quit.response (fun _ => 0) BUFFER_SIZE midnight).1 = n ∧
      readReply (contents (Verdict.quit.response (fun _ => 0) BUFFER_SIZE midnight).2 n ++ []) =
        some (Verdict.quit.reply midnight, [])) ∧
    ∃ n : ℕ, (HttpServer.response (-1) (fun _ => 0) midnight).1 = n ∧
      readReply (contents (HttpServer.response (-1) (fun _ => 0) midnight).2 n ++ []) =
        some (Verdict.failure.reply midnight, []) := by
  have htm : midnight.Proper := ⟨by decide, by decide, by decide, by decide, by decide, by decide⟩
  obtain ⟨hverdict, houtcome⟩ := response_readReply (fun _ => 0) midnight htm
  obtain ⟨n, hn, hread⟩ := hverdict .quit BUFFER_SIZE (by decide) (by decide)
  obtain ⟨m, hm, hread'⟩ := houtcome (-1)
  exact ⟨⟨n, hn, hread []⟩, m, hm, hread' []⟩

end Waeio
