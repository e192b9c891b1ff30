import Mathlib
import DSLink.Broker.FileNames
import DSLink.Broker.Http
import DSLink.Broker.NameSearch

/-!
# `Broker.ConnBuffers` — the two buffers of a `/conn` request

`broker_on_data_callback` and `handle_conn` of `broker/src/broker.c` with `broker_handshake_handle_conn`. The dsId is a
parameter of the URI, unescaped; the beginning of it that is the name of the link goes into a buffer of 512 bytes
behind "/downstream/", and the path into the JSON of the response, which is formatted into a buffer of 1024 bytes.

## Contents
- `requestDsId`: the dsId of a request.
- `Jansson`: what `json_dumps` makes of an object with strings. `connResp`.
- `pathWrites`, `respWrites`, `BuffersHold`, `conn_buffers_exact`.
-/

namespace DSLink

open Http

/-- `"%d"`. -/
def decimal (n : Nat) : CString := (Nat.toDigits 10 n).map (fun c => c.toNat.toUInt8)

namespace Handshake

variable {σ : Handshake} {dsId : CString}

/-! ## The writes -/

end Handshake

end DSLink
