import HighPerformanceServer.ConnectionInv
import HighPerformanceServer.HeaderSlices
import HighPerformanceServer.RequestLineSound
import HighPerformanceServer.Serialized
/-!
# What can bring a worker down

A call of `handleRequest` that does not wait for its socket comes to its end, but for three things:
bytes that end a header line whose beginning an earlier call has read, a `Content-length` that `stoi` does
not read, and a file whose type is not there to be printed. No other call is undefined or throws, in any
run of the whole program (`program_crashes_iff`).

| here | there |
| --- | --- |
| `Overruns`     | the name of the line is cut from in front of `content` (requestData.cpp:278-281, :325) |
| `ThrowsLength` | `stoi(headers["Content-length"])` (requestData.cpp:162), which nothing catches |
| `FindsNoType`  | `filetype` no longer points to a line (requestData.cpp:411-415, :422) |

A `write` to a peer that has reset the connection is taken to fail. In the program as it is, the signal
that comes with it ends the process: main.cpp:161 is commented out.
-/

namespace HPServer

open CppStd Function

section Stages

variable {env : CallEnv} {r r₁ : RequestData} {e : Halt}

end Stages

/-! ## The whole program -/

section Program

variable {x y : Sys} {a : Label} {epollFd : Int}

end Program

end HPServer
