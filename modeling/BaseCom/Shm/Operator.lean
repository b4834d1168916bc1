import Mathlib.Data.List.Basic

/-! The methods of `ShmOperator`, over any kernel that answers the four system calls.
Fields are assigned where the code assigns them, before or after the result of the
call is looked at. -/

namespace BaseCom.Shm

/-- The system calls, each a function of the kernel's state. `shmdt` returns its
value and `errno`; of `shmctl` only `IPC_RMID` is used. -/
structure ShmCalls (κ : Type*) where
  shmget (key size shmflg : Int32) : κ → Int32 × κ
  shmat (shmid : Int32) : κ → UInt64 × κ
  shmdt (shmaddr : UInt64) : κ → (Int32 × Int32) × κ
  shmctl (shmid : Int32) : κ → Int32 × κ

/-- `NULL`. -/
def null : UInt64 := 0

/-- `(char*)-1`. -/
def shmFailed : UInt64 := -1

def einval : Int32 := 22

/-- `SHM_R | SHM_W`. -/
def shmRW : Int32 := 384

/-- The data members. -/
structure ShmOperator where
  key : Int32
  size : Int32
  flag : Int32
  shmid : Int32
  memoryAddr : UInt64
  deriving DecidableEq

namespace ShmOperator

/-- `ShmOperator::ShmOperator`. -/
def construct (key size flag : Int32) : ShmOperator :=
  { key, size, flag, shmid := -1, memoryAddr := null }

variable {κ : Type*} (calls : ShmCalls κ)

def createMemory (o : ShmOperator) (k : κ) : Bool × ShmOperator × κ :=
  let (shmid, k) := calls.shmget o.key o.size o.flag k
  let o := { o with shmid := shmid }
  if o.shmid = -1 then (false, o, k)
  else
    let (addr, k) := calls.shmat o.shmid k
    let o := { o with memoryAddr := addr }
    if o.memoryAddr = shmFailed then (false, o, k) else (true, o, k)

/-- The part of `DestroyMemory` from `shmctl` on. -/
def removeMemory (o : ShmOperator) (k : κ) : Bool × ShmOperator × κ :=
  let (ret, k) := calls.shmctl o.shmid k
  if ret ≠ 0 then (false, o, k)
  else (true, { o with shmid := -1, memoryAddr := null }, k)

def destroyMemory (o : ShmOperator) (k : κ) : Bool × ShmOperator × κ :=
  if o.shmid = -1 then (false, o, k)
  else if o.memoryAddr ≠ null then
    let ((ret, _), k) := calls.shmdt o.memoryAddr k
    if ret ≠ 0 then (false, o, k)
    else removeMemory calls { o with memoryAddr := null } k
  else removeMemory calls o k

/-- The second component is the reference parameter `pmemoryAddr`. -/
def attachMemory (o : ShmOperator) (k : κ) : Bool × UInt64 × ShmOperator × κ :=
  let (o, k) :=
    if o.shmid = -1 then
      let (shmid, k) := calls.shmget o.key 0 shmRW k
      ({ o with shmid := shmid }, k)
    else (o, k)
  let (addr, k) := calls.shmat o.shmid k
  let o := { o with memoryAddr := addr }
  if o.memoryAddr = shmFailed then (false, null, o, k) else (true, o.memoryAddr, o, k)

def detachMemory (o : ShmOperator) (pmemoryAddr : UInt64) (k : κ) : Bool × ShmOperator × κ :=
  if o.shmid = -1 ∨ o.memoryAddr = null then (true, o, k)
  else if pmemoryAddr ≠ o.memoryAddr then (false, o, k)
  else
    let ((nCode, errno), k) := calls.shmdt o.memoryAddr k
    if nCode ≠ 0 then
      if errno = einval then (true, { o with memoryAddr := null }, k) else (false, o, k)
    else (true, { o with memoryAddr := null }, k)

/-- `ShmOperator::~ShmOperator`. -/
def destruct (o : ShmOperator) (k : κ) : ShmOperator × κ :=
  if o.memoryAddr ≠ null then (detachMemory calls o o.memoryAddr k).2 else (o, k)

end ShmOperator

end BaseCom.Shm
