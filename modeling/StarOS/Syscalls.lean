/-
System calls (`syscall/mod.rs`): the dispatcher and its handlers, the buffers they accept and the
descriptors they give out.

`sys_write` and `sys_read` compare the end of the buffer with the end of user space.  The four
socket handlers that take a buffer look at the pointer and at the length, each for itself, and not
at the sum of the two.

`sys_socket` and `sys_accept` count descriptors up from 3 and from 100.  With the ninety-eighth
socket the first counter reaches the second.

* `StarOS.SyscallNumber`, `StarOS.SyscallArgs`, `StarOS.SyscallDispatcher`, `StarOS.initSyscalls` —
  the dispatcher;
* `StarOS.sysWrite`, `StarOS.sysSendto`, `StarOS.sysSocket`, `StarOS.sysAccept` and the other
  handlers;
* `StarOS.InUserSpace`, `StarOS.AcceptsOnlyUser`, `StarOS.EndsInside` — the law of buffers, and the
  condition on the registers;
* `StarOS.syscall_buffers_iff` — when the law holds;
* `StarOS.FdCall`, `StarOS.descriptors` — calls that give out descriptors;
* `StarOS.descriptors_nodup_iff` — when all of them are distinct.
-/

import StarOS.Error
import StarOS.Scheduler
import Mathlib.Data.List.Nodup
import Mathlib.Data.List.Range

set_option autoImplicit false

namespace StarOS

/-! ### Data -/

/-- System call numbers. -/
inductive SyscallNumber where
  | exit | fork | exec | wait | kill | getPid | getPPid
  | mmap | munmap | mprotect | brk
  | send | receive | signal
  | read | write | open | close
  | sleep | getTime
  | mutexLock | mutexUnlock | semWait | semSignal
  | pqKeyGen | pqEncapsulate | pqDecapsulate | pqSign | pqVerify
  | socket | bind | connect | sendTo | recvFrom | listen | accept
  deriving DecidableEq, Repr

namespace SyscallNumber

/-- `syscall as usize`. -/
def index : SyscallNumber → ℕ
  | exit => 0 | fork => 1 | exec => 2 | wait => 3 | kill => 4 | getPid => 5 | getPPid => 6
  | mmap => 10 | munmap => 11 | mprotect => 12 | brk => 13
  | send => 20 | receive => 21 | signal => 22
  | read => 30 | write => 31 | «open» => 32 | close => 33
  | sleep => 40 | getTime => 41
  | mutexLock => 50 | mutexUnlock => 51 | semWait => 52 | semSignal => 53
  | pqKeyGen => 60 | pqEncapsulate => 61 | pqDecapsulate => 62 | pqSign => 63 | pqVerify => 64
  | socket => 70 | bind => 71 | connect => 72 | sendTo => 73 | recvFrom => 74 | listen => 75
  | accept => 76

/-- `SyscallNumber::from_u64`. -/
def fromU64 (val : Usize) : Option SyscallNumber :=
  match val.toNat with
  | 0 => some exit | 1 => some fork | 2 => some exec | 3 => some wait | 4 => some kill
  | 5 => some getPid | 6 => some getPPid
  | 10 => some mmap | 11 => some munmap | 12 => some mprotect | 13 => some brk
  | 20 => some send | 21 => some receive | 22 => some signal
  | 30 => some read | 31 => some write | 32 => some «open» | 33 => some close
  | 40 => some sleep | 41 => some getTime
  | 50 => some mutexLock | 51 => some mutexUnlock | 52 => some semWait | 53 => some semSignal
  | 60 => some pqKeyGen | 61 => some pqEncapsulate | 62 => some pqDecapsulate
  | 63 => some pqSign | 64 => some pqVerify
  | 70 => some socket | 71 => some bind | 72 => some connect | 73 => some sendTo
  | 74 => some recvFrom | 75 => some listen | 76 => some accept
  | _ => none

end SyscallNumber

/-- The registers of an exception context that a system call reads. -/
structure ExceptionContext where
  x : Fin 31 → Usize

/-- System call arguments. -/
structure SyscallArgs where
  arg0 : Usize
  arg1 : Usize
  arg2 : Usize
  arg3 : Usize
  arg4 : Usize
  arg5 : Usize
  deriving DecidableEq, Repr

/-- `SyscallArgs::from_context`. -/
def SyscallArgs.fromContext (ctx : ExceptionContext) : SyscallArgs :=
  ⟨ctx.x 0, ctx.x 1, ctx.x 2, ctx.x 3, ctx.x 4, ctx.x 5⟩

/-- `SyscallResult`. -/
abbrev SyscallResult := Except KernelError Usize

/-- The counters `NEXT_FD` of `sys_socket` and of `sys_accept`. -/
structure NextFds where
  socket : Usize
  accept : Usize
  deriving DecidableEq, Repr

/-- The counters at boot. -/
def NextFds.start : NextFds := ⟨3#64, 100#64⟩

/-- A handler, with the counters that it may take a descriptor from. -/
abbrev SyscallHandler := SyscallArgs → TaskId → NextFds → SyscallResult × NextFds

/-! ### Handlers -/

/-- `USER_SPACE_END`. -/
def userSpaceEnd : Usize := 0x0000FFFFFFFFFFFF#64

/-- `sys_exit`. -/
def sysExit : SyscallHandler := fun args _ fds => (.ok args.arg0, fds)

/-- `sys_getpid`. -/
def sysGetpid : SyscallHandler := fun _ caller fds => (.ok caller.id, fds)

/-- `sys_sleep`. -/
def sysSleep : SyscallHandler := fun args _ fds => (.ok args.arg0, fds)

/-- `sys_gettime`. -/
def sysGettime : SyscallHandler := fun _ _ fds => (.ok 0#64, fds)

/-- The checks that `sys_write` and `sys_read` make of a buffer. -/
def checkBuffer (bufAddr len : Usize) : SyscallResult :=
  if 0#64 < len then
    if bufAddr = 0#64 ∨ userSpaceEnd < bufAddr then .error .invalidAddress
    -- `checked_add`
    else if 2 ^ 64 ≤ bufAddr.toNat + len.toNat ∨ userSpaceEnd < bufAddr + len then
      .error .invalidAddress
    else .ok len
  else .ok len

/-- `sys_write`. -/
def sysWrite : SyscallHandler := fun args _ fds => (checkBuffer args.arg1 args.arg2, fds)

/-- `sys_read`. -/
def sysRead : SyscallHandler := fun args _ fds => (checkBuffer args.arg1 args.arg2, fds)

/-- `sys_mmap`. -/
def sysMmap : SyscallHandler := fun args caller fds =>
  let length := args.arg1
  let flags : BitVec 32 := args.arg3.setWidth 32
  if length = 0#64 ∨ 268435456#64 < length then
    (.error (.invalidParameter "mmap: invalid length"), fds)
  else if flags &&& 0x20#32 ≠ 0#32 then (.ok (0x40000000#64 + caller.id * 0x10000000#64), fds)
  else (.error .notImplemented, fds)

/-- `sys_munmap`. -/
def sysMunmap : SyscallHandler := fun args _ fds =>
  if args.arg0 = 0#64 ∨ args.arg1 = 0#64 then (.error .invalidAddress, fds)
  else if args.arg0 &&& 0xFFF#64 ≠ 0#64 then (.error (.memory .invalidAlignment), fds)
  else (.ok 0#64, fds)

/-- The domains that `sys_socket` supports. -/
def supportedDomain (args : SyscallArgs) : Bool :=
  args.arg0.setWidth 32 == 2#32 || args.arg0.setWidth 32 == 10#32

/-- The types that `sys_socket` supports. -/
def supportedType (args : SyscallArgs) : Bool :=
  args.arg1.setWidth 32 == 1#32 || args.arg1.setWidth 32 == 2#32

/-- `sys_socket`; `fetch_add` wraps around. -/
def sysSocket : SyscallHandler := fun args _ fds =>
  if supportedDomain args = false then (.error (.invalidParameter "unsupported domain"), fds)
  else if supportedType args = false then (.error (.invalidParameter "unsupported type"), fds)
  else (.ok fds.socket, { fds with socket := fds.socket + 1#64 })

/-- What `sys_bind` and `sys_connect` do. -/
def takeAddress : SyscallHandler := fun args _ fds =>
  if args.arg0 < 3#64 then (.error (.invalidParameter "invalid fd"), fds)
  else if args.arg1 = 0#64 ∨ args.arg2 < 4#64 then (.error .invalidAddress, fds)
  else (.ok 0#64, fds)

/-- `sys_bind`. -/
def sysBind : SyscallHandler := takeAddress

/-- `sys_connect`. -/
def sysConnect : SyscallHandler := takeAddress

/-- `sys_sendto`. -/
def sysSendto : SyscallHandler := fun args _ fds =>
  if args.arg0 < 3#64 then (.error (.invalidParameter "invalid fd"), fds)
  else if args.arg1 = 0#64 ∨ args.arg2 = 0#64 then (.error .invalidAddress, fds)
  else if 65536#64 < args.arg2 then (.error (.invalidParameter "sendto: too large"), fds)
  else (.ok args.arg2, fds)

/-- `sys_recvfrom`. -/
def sysRecvfrom : SyscallHandler := fun args _ fds =>
  if args.arg0 < 3#64 then (.error (.invalidParameter "invalid fd"), fds)
  else if args.arg1 = 0#64 ∨ args.arg2 = 0#64 then (.error .invalidAddress, fds)
  else (.ok 0#64, fds)

/-- `sys_listen`. -/
def sysListen : SyscallHandler := fun args _ fds =>
  if args.arg0 < 3#64 then (.error (.invalidParameter "invalid fd"), fds) else (.ok 0#64, fds)

/-- `sys_accept`; `fetch_add` wraps around. -/
def sysAccept : SyscallHandler := fun args _ fds =>
  if args.arg0 < 3#64 then (.error (.invalidParameter "invalid fd"), fds)
  else (.ok fds.accept, { fds with accept := fds.accept + 1#64 })

/-! ### The dispatcher -/

/-- The dispatcher.  Only the 77 handlers below index 77 exist. -/
structure SyscallDispatcher where
  handlers : ℕ → Option SyscallHandler
  totalSyscalls : Usize
  invalidSyscalls : Usize

namespace SyscallDispatcher

/-- `SyscallDispatcher::new`. -/
def new : SyscallDispatcher := ⟨fun _ => none, 0#64, 0#64⟩

/-- `register`. -/
def register (d : SyscallDispatcher) (syscall : SyscallNumber) (handler : SyscallHandler) :
    SyscallDispatcher :=
  if syscall.index < 77 then
    { d with handlers := Function.update d.handlers syscall.index handler }
  else d

/-- Counting an invalid call. -/
def countInvalid (d : SyscallDispatcher) : SyscallDispatcher :=
  { d with invalidSyscalls := d.invalidSyscalls + 1#64 }

/-- `dispatch`: the result, and the dispatcher and the counters afterwards. -/
def dispatch (d : SyscallDispatcher) (ctx : ExceptionContext) (caller : TaskId) (fds : NextFds) :
    SyscallResult × SyscallDispatcher × NextFds :=
  let d := { d with totalSyscalls := d.totalSyscalls + 1#64 }
  let syscallNum := ctx.x 8
  if 76#64 < syscallNum then
    (.error (.invalidParameter "Invalid syscall number"), d.countInvalid, fds)
  else
    match SyscallNumber.fromU64 syscallNum with
    | none => (.error (.invalidParameter "Invalid syscall number"), d.countInvalid, fds)
    | some syscall =>
        if 77 ≤ syscall.index then
          (.error (.invalidParameter "Syscall out of range"), d.countInvalid, fds)
        else
          match d.handlers syscall.index with
          | some handler =>
              let r := handler (SyscallArgs.fromContext ctx) caller fds
              (r.1, d, r.2)
          | none => (.error .notImplemented, d.countInvalid, fds)

end SyscallDispatcher

/-- `init_syscalls`. -/
def initSyscalls (d : SyscallDispatcher) : SyscallDispatcher :=
  let d := d.register .exit sysExit
  let d := d.register .getPid sysGetpid
  let d := d.register .sleep sysSleep
  let d := d.register .getTime sysGettime
  let d := d.register .write sysWrite
  let d := d.register .read sysRead
  let d := d.register .mmap sysMmap
  let d := d.register .munmap sysMunmap
  let d := d.register .socket sysSocket
  let d := d.register .bind sysBind
  let d := d.register .connect sysConnect
  let d := d.register .sendTo sysSendto
  let d := d.register .recvFrom sysRecvfrom
  let d := d.register .listen sysListen
  d.register .accept sysAccept

/-! ### What the handlers look at -/

/-- A buffer of user space: a pointer that is not null, an end that 64 bits hold, and every byte
below the end of user space. -/
def InUserSpace (ptr len : Usize) : Prop :=
  ptr ≠ 0#64 ∧ ptr.toNat + len.toNat < 2 ^ 64 ∧
    ∀ a, ptr.toNat ≤ a → a < ptr.toNat + len.toNat → a < userSpaceEnd.toNat

/-- The check of the end is enough for a buffer whose pointer is not null. -/
theorem inUserSpace_iff {ptr len : Usize} (hptr : ptr ≠ 0#64) (hlen : len ≠ 0#64) :
    InUserSpace ptr len ↔ ptr.toNat + len.toNat ≤ userSpaceEnd.toNat := by
  have hend : userSpaceEnd.toNat = 281474976710655 := rfl
  have hpos : 0 < len.toNat := by
    rw [Nat.pos_iff_ne_zero]
    exact fun h => hlen (BitVec.eq_of_toNat_eq h)
  constructor
  · rintro ⟨-, -, hbelow⟩
    have hlast := hbelow (ptr.toNat + len.toNat - 1) (by omega) (by omega)
    omega
  · intro hle
    exact ⟨hptr, by omega, fun a _ ha => by omega⟩

/-- `sys_write` and `sys_read` accept only buffers of user space. -/
theorem inUserSpace_of_checkBuffer {ptr len v : Usize} (hlen : len ≠ 0#64)
    (h : checkBuffer ptr len = .ok v) : InUserSpace ptr len := by
  have hpos : 0#64 < len := by
    rw [BitVec.lt_def]
    exact Nat.pos_of_ne_zero fun h0 => hlen (BitVec.eq_of_toNat_eq h0)
  rw [checkBuffer, if_pos hpos] at h
  by_cases hptr : ptr = 0#64 ∨ userSpaceEnd < ptr
  · rw [if_pos hptr] at h
    exact absurd h (by simp)
  · rw [if_neg hptr] at h
    by_cases hadd : 2 ^ 64 ≤ ptr.toNat + len.toNat ∨ userSpaceEnd < ptr + len
    · rw [if_pos hadd] at h
      exact absurd h (by simp)
    · rw [not_or, not_le, BitVec.lt_def, not_lt, BitVec.toNat_add] at hadd
      rw [Nat.mod_eq_of_lt hadd.1] at hadd
      exact (inUserSpace_iff (fun h0 => hptr (.inl h0)) hlen).2 hadd.2

/-- A call passes the checks that a socket handler makes: a descriptor that is not a standard one, a
pointer that is not null, and a length between two bounds. -/
def SyscallArgs.Passes (args : SyscallArgs) (least most : ℕ) : Prop :=
  3 ≤ args.arg0.toNat ∧ args.arg1 ≠ 0#64 ∧ least ≤ args.arg2.toNat ∧ args.arg2.toNat ≤ most

/-- A check in front of a handler: what fails it is refused. -/
theorem ok_ite_iff {c : Prop} [Decidable c] {error : KernelError} {fds : NextFds}
    {r : SyscallResult × NextFds} :
    (∃ v, (if c then (.error error, fds) else r).1 = .ok v) ↔ ¬ c ∧ ∃ v, r.1 = .ok v := by
  split
  · rename_i hc
    refine iff_of_false ?_ fun h => h.1 hc
    rintro ⟨v, hv⟩
    cases hv
  · rename_i hc
    exact (and_iff_right hc).symm

theorem ok_iff_true {fds : NextFds} {v : Usize} :
    (∃ v', ((.ok v, fds) : SyscallResult × NextFds).1 = .ok v') ↔ True :=
  iff_of_true ⟨v, rfl⟩ trivial

/-- An argument of zero, as a number. -/
theorem eq_zero_iff_toNat {len : Usize} : len = 0#64 ↔ len.toNat = 0 :=
  ⟨fun h => by rw [h]; rfl, fun h => BitVec.eq_of_toNat_eq h⟩

/-- `sys_bind` and `sys_connect` accept a call exactly if it passes their checks. -/
theorem takeAddress_ok_iff {args : SyscallArgs} {caller : TaskId} {fds : NextFds} :
    (∃ v, (takeAddress args caller fds).1 = .ok v) ↔ args.Passes 4 (2 ^ 64 - 1) := by
  have hlt := args.arg2.isLt
  have h3 : args.arg0 < 3#64 ↔ args.arg0.toNat < 3 := Iff.rfl
  have h4 : args.arg2 < 4#64 ↔ args.arg2.toNat < 4 := Iff.rfl
  have hnull := @eq_zero_iff_toNat args.arg1
  rw [takeAddress, ok_ite_iff, ok_ite_iff, ok_iff_true, and_true, SyscallArgs.Passes, h3, h4, Ne,
    hnull]
  omega

/-- `sys_sendto` accepts a call exactly if it passes its checks. -/
theorem sysSendto_ok_iff {args : SyscallArgs} {caller : TaskId} {fds : NextFds} :
    (∃ v, (sysSendto args caller fds).1 = .ok v) ↔ args.Passes 1 65536 := by
  have h3 : args.arg0 < 3#64 ↔ args.arg0.toNat < 3 := Iff.rfl
  have hmost : 65536#64 < args.arg2 ↔ 65536 < args.arg2.toNat := Iff.rfl
  have hnull := @eq_zero_iff_toNat args.arg1
  have hzero := @eq_zero_iff_toNat args.arg2
  rw [sysSendto, ok_ite_iff, ok_ite_iff, ok_ite_iff, ok_iff_true, and_true, SyscallArgs.Passes, h3,
    hmost, hzero, Ne, hnull]
  omega

/-- `sys_recvfrom` accepts a call exactly if it passes its checks. -/
theorem sysRecvfrom_ok_iff {args : SyscallArgs} {caller : TaskId} {fds : NextFds} :
    (∃ v, (sysRecvfrom args caller fds).1 = .ok v) ↔ args.Passes 1 (2 ^ 64 - 1) := by
  have hlt := args.arg2.isLt
  have h3 : args.arg0 < 3#64 ↔ args.arg0.toNat < 3 := Iff.rfl
  have hnull := @eq_zero_iff_toNat args.arg1
  have hzero := @eq_zero_iff_toNat args.arg2
  rw [sysRecvfrom, ok_ite_iff, ok_ite_iff, ok_iff_true, and_true, SyscallArgs.Passes, h3, hzero, Ne,
    hnull]
  omega

/-! ### Dispatching -/

/-- The number of a call is read back. -/
theorem SyscallNumber.fromU64_index {num : Usize} {call : SyscallNumber}
    (h : num.toNat = call.index) : SyscallNumber.fromU64 num = some call := by
  unfold SyscallNumber.fromU64
  rw [h]
  cases call <;> rfl

/-- Every number is among the first 77. -/
theorem SyscallNumber.index_lt (call : SyscallNumber) : call.index < 77 := by
  cases call <;> decide

/-- `dispatch` gives what the handler of the call gives. -/
theorem SyscallDispatcher.dispatch_eq {d : SyscallDispatcher} {ctx : ExceptionContext}
    {call : SyscallNumber} {handler : SyscallHandler} (hnum : (ctx.x 8).toNat = call.index)
    (hhandler : d.handlers call.index = some handler) (caller : TaskId) (fds : NextFds) :
    (d.dispatch ctx caller fds).1 = (handler (.fromContext ctx) caller fds).1 := by
  have hlt := call.index_lt
  have hbound : ¬76#64 < ctx.x 8 := by
    rw [BitVec.lt_def, hnum, not_lt]
    exact Nat.le_of_lt_succ hlt
  simp only [SyscallDispatcher.dispatch, hbound, if_false, SyscallNumber.fromU64_index hnum,
    if_neg (not_le.2 hlt), hhandler]

/-- The calls that take a buffer. -/
def bufferCalls : List SyscallNumber := [.read, .write, .sendTo, .recvFrom, .bind, .connect]

/-- A call with a buffer that is accepted, its length not zero, names a buffer of user space. -/
def AcceptsOnlyUser (d : SyscallDispatcher) (ctx : ExceptionContext) (caller : TaskId)
    (fds : NextFds) : Prop :=
  ∀ call ∈ bufferCalls, (ctx.x 8).toNat = call.index →
    (∃ v, (d.dispatch ctx caller fds).1 = .ok v) → ctx.x 2 ≠ 0#64 → InUserSpace (ctx.x 1) (ctx.x 2)

/-- The bounds between which a socket call accepts a length. -/
def socketBounds : SyscallNumber → Option (ℕ × ℕ)
  | .bind | .connect => some (4, 2 ^ 64 - 1)
  | .sendTo => some (1, 65536)
  | .recvFrom => some (1, 2 ^ 64 - 1)
  | _ => none

/-- If the registers pass the checks of the socket call that they number, the end of the buffer is
not past the end of user space. -/
def EndsInside (ctx : ExceptionContext) : Prop :=
  ∀ call bounds, (ctx.x 8).toNat = call.index → socketBounds call = some bounds →
    (SyscallArgs.fromContext ctx).Passes bounds.1 bounds.2 →
    (ctx.x 1).toNat + (ctx.x 2).toNat ≤ userSpaceEnd.toNat

/-- A socket call is accepted exactly if it passes its checks. -/
theorem dispatch_socket_iff {call : SyscallNumber} {bounds : ℕ × ℕ} {ctx : ExceptionContext}
    (hbounds : socketBounds call = some bounds) (hnum : (ctx.x 8).toNat = call.index)
    (d : SyscallDispatcher) (caller : TaskId) (fds : NextFds) :
    (∃ v, ((initSyscalls d).dispatch ctx caller fds).1 = .ok v) ↔
      (SyscallArgs.fromContext ctx).Passes bounds.1 bounds.2 := by
  cases call with
  | bind =>
      cases hbounds
      rw [(initSyscalls d).dispatch_eq hnum rfl]
      exact takeAddress_ok_iff
  | connect =>
      cases hbounds
      rw [(initSyscalls d).dispatch_eq hnum rfl]
      exact takeAddress_ok_iff
  | sendTo =>
      cases hbounds
      rw [(initSyscalls d).dispatch_eq hnum rfl]
      exact sysSendto_ok_iff
  | recvFrom =>
      cases hbounds
      rw [(initSyscalls d).dispatch_eq hnum rfl]
      exact sysRecvfrom_ok_iff
  | _ => cases hbounds

/-- A call with a buffer is a file call, or a socket call with bounds of its own. -/
theorem bufferCalls_cases {call : SyscallNumber} (h : call ∈ bufferCalls) :
    call = .read ∨ call = .write ∨ ∃ bounds, socketBounds call = some bounds := by
  simp only [bufferCalls, List.mem_cons, List.not_mem_nil, or_false] at h
  rcases h with rfl | rfl | rfl | rfl | rfl | rfl
  · exact .inl rfl
  · exact .inr (.inl rfl)
  all_goals exact .inr (.inr ⟨_, rfl⟩)

/-- A call with bounds takes a buffer. -/
theorem mem_bufferCalls {call : SyscallNumber} {bounds : ℕ × ℕ}
    (h : socketBounds call = some bounds) : call ∈ bufferCalls := by
  cases call with
  | bind | connect | sendTo | recvFrom => decide
  | _ => cases h

/-- A length between the bounds of a socket call is not zero. -/
theorem Passes.len_ne_zero {call : SyscallNumber} {bounds : ℕ × ℕ} {args : SyscallArgs}
    (hbounds : socketBounds call = some bounds) (h : args.Passes bounds.1 bounds.2) :
    args.arg2 ≠ 0#64 := by
  intro hzero
  have hle := h.2.2.1
  rw [eq_zero_iff_toNat.1 hzero] at hle
  cases call with
  | bind | connect | sendTo | recvFrom =>
      cases hbounds
      exact absurd hle (by decide)
  | _ => cases hbounds

/-- The two file calls accept only buffers of user space. -/
theorem dispatch_file {d : SyscallDispatcher} {ctx : ExceptionContext} {caller : TaskId}
    {fds : NextFds} {v : Usize}
    (hnum : (ctx.x 8).toNat = SyscallNumber.read.index ∨
      (ctx.x 8).toNat = SyscallNumber.write.index)
    (hok : ((initSyscalls d).dispatch ctx caller fds).1 = .ok v) (hlen : ctx.x 2 ≠ 0#64) :
    InUserSpace (ctx.x 1) (ctx.x 2) := by
  rcases hnum with hnum | hnum
  · rw [(initSyscalls d).dispatch_eq hnum rfl] at hok
    exact inUserSpace_of_checkBuffer hlen hok
  · rw [(initSyscalls d).dispatch_eq hnum rfl] at hok
    exact inUserSpace_of_checkBuffer hlen hok

/-- **Whatever the dispatcher was before `init_syscalls`, it accepts only buffers of user space
exactly if the buffers that pass the checks of the socket calls end there.** -/
theorem syscall_buffers_iff (d : SyscallDispatcher) (ctx : ExceptionContext) (caller : TaskId)
    (fds : NextFds) : AcceptsOnlyUser (initSyscalls d) ctx caller fds ↔ EndsInside ctx := by
  constructor
  · intro hlaw call bounds hnum hbounds hpass
    have hlen := Passes.len_ne_zero hbounds hpass
    have hin := hlaw call (mem_bufferCalls hbounds) hnum
      ((dispatch_socket_iff hbounds hnum d caller fds).2 hpass) hlen
    exact (inUserSpace_iff hin.1 hlen).1 hin
  · intro hends call hmem hnum hok hlen
    rcases bufferCalls_cases hmem with rfl | rfl | ⟨bounds, hbounds⟩
    · exact dispatch_file (.inl hnum) hok.choose_spec hlen
    · exact dispatch_file (.inr hnum) hok.choose_spec hlen
    · have hpass := (dispatch_socket_iff hbounds hnum d caller fds).1 hok
      exact (inUserSpace_iff hpass.2.1 hlen).2 (hends call bounds hnum hbounds hpass)

/-- `sys_sendto` accepts sixteen bytes of kernel memory. -/
theorem syscall_kernel_buffer :
    ¬∀ (d : SyscallDispatcher) (ctx : ExceptionContext) (caller : TaskId) (fds : NextFds),
      AcceptsOnlyUser (initSyscalls d) ctx caller fds := by
  intro hall
  have h := hall .new ⟨fun i => if i = 8 then 73#64 else if i = 0 then 3#64 else
    if i = 1 then 0xFFFF000000000000#64 else 16#64⟩ ⟨1#64⟩ .start
    .sendTo (by decide) rfl ⟨16#64, rfl⟩ (by decide)
  exact absurd (h.2.2 0xFFFF000000000000 (by decide) (by decide)) (by decide)

/-! ### Descriptors -/

/-- A call that gives out a descriptor, by any task. -/
inductive FdCall where
  | socket (args : SyscallArgs) (caller : TaskId)
  | accept (args : SyscallArgs) (caller : TaskId)
  deriving DecidableEq, Repr

namespace FdCall

/-- What the call does. -/
def run (fds : NextFds) : FdCall → SyscallResult × NextFds
  | socket args caller => sysSocket args caller fds
  | accept args caller => sysAccept args caller fds

/-- A call of `sys_socket` with a supported domain and type. -/
def isSocket : FdCall → Bool
  | socket args _ => supportedDomain args && supportedType args
  | accept _ _ => false

/-- A call of `sys_accept` with a descriptor that is not a standard one. -/
def isAccept : FdCall → Bool
  | socket _ _ => false
  | accept args _ => !decide (args.arg0 < 3#64)

/-- A call gives out the next descriptor of its counter, or none. -/
theorem run_cases (fds : NextFds) (call : FdCall) :
    (call.isSocket = true ∧ call.isAccept = false ∧
      call.run fds = (.ok fds.socket, { fds with socket := fds.socket + 1#64 })) ∨
    (call.isSocket = false ∧ call.isAccept = true ∧
      call.run fds = (.ok fds.accept, { fds with accept := fds.accept + 1#64 })) ∨
    (call.isSocket = false ∧ call.isAccept = false ∧ ∃ e, call.run fds = (.error e, fds)) := by
  cases call with
  | socket args caller =>
      cases hdom : supportedDomain args with
      | false =>
          refine .inr (.inr ⟨?_, rfl, _, if_pos hdom⟩)
          rw [isSocket, hdom, Bool.false_and]
      | true =>
          have hrun : run fds (socket args caller) = _ := if_neg (by rw [hdom]; decide)
          cases htype : supportedType args with
          | false =>
              refine .inr (.inr ⟨?_, rfl, _, hrun.trans (if_pos htype)⟩)
              rw [isSocket, htype, Bool.and_false]
          | true =>
              refine .inl ⟨?_, rfl, hrun.trans (if_neg (by rw [htype]; decide))⟩
              rw [isSocket, hdom, htype, Bool.and_self]
  | accept args caller =>
      by_cases hfd : args.arg0 < 3#64
      · refine .inr (.inr ⟨rfl, ?_, _, if_pos hfd⟩)
        rw [isAccept, decide_eq_true hfd, Bool.not_true]
      · refine .inr (.inl ⟨rfl, ?_, if_neg hfd⟩)
        rw [isAccept, decide_eq_false hfd, Bool.not_false]

end FdCall

/-- The descriptors that the successful calls return. -/
def descriptors (fds : NextFds) : List FdCall → List Usize
  | [] => []
  | call :: calls =>
      match call.run fds with
      | (.ok fd, fds) => fd :: descriptors fds calls
      | (.error _, fds) => descriptors fds calls

/-- The first `n` values of a counter. -/
def counterValues (start : Usize) (n : ℕ) : List Usize :=
  (List.range n).map fun i => start + BitVec.ofNat 64 i

theorem counterValues_succ (start : Usize) (n : ℕ) :
    counterValues start (n + 1) = start :: counterValues (start + 1#64) n := by
  rw [counterValues, List.range_succ_eq_map, List.map_cons, List.map_map, counterValues]
  congr 1
  · exact BitVec.add_zero start
  · refine List.map_congr_left fun i _ => ?_
    change start + BitVec.ofNat 64 (i + 1) = start + 1#64 + BitVec.ofNat 64 i
    rw [BitVec.ofNat_add, BitVec.add_assoc, BitVec.add_comm (BitVec.ofNat 64 i)]

/-- The descriptors are the first values of the two counters, in some order. -/
theorem descriptors_perm (fds : NextFds) (calls : List FdCall) :
    (descriptors fds calls).Perm
      (counterValues fds.socket (calls.countP FdCall.isSocket) ++
        counterValues fds.accept (calls.countP FdCall.isAccept)) := by
  induction calls generalizing fds with
  | nil => exact .refl _
  | cons call calls ih =>
      rw [List.countP_cons, List.countP_cons, descriptors]
      rcases call.run_cases fds with ⟨hs, ha, hrun⟩ | ⟨hs, ha, hrun⟩ | ⟨hs, ha, e, hrun⟩
      · rw [hs, ha, hrun, if_pos rfl, if_neg Bool.false_ne_true, counterValues_succ]
        exact (ih _).cons _
      · rw [hs, ha, hrun, if_neg Bool.false_ne_true, if_pos rfl, counterValues_succ]
        exact ((ih _).cons _).trans List.perm_middle.symm
      · rw [hs, ha, hrun, if_neg Bool.false_ne_true]
        exact ih _

/-- The values of a counter as numbers, if it does not wrap around. -/
theorem counterValues_toNat {start : Usize} {n : ℕ} (h : start.toNat + n ≤ 2 ^ 64) :
    (counterValues start n).map BitVec.toNat = List.range' start.toNat n := by
  rw [counterValues, List.map_map, List.range'_eq_map_range]
  refine List.map_congr_left fun i hi => ?_
  rw [List.mem_range] at hi
  simp only [Function.comp_apply, BitVec.toNat_add, BitVec.toNat_ofNat]
  omega

/-- **Until a counter wraps around, the descriptors of any sequence of calls are distinct exactly if
no call of `sys_accept` is accepted, or at most ninety-seven of `sys_socket`.** -/
theorem descriptors_nodup_iff (calls : List FdCall)
    (hs : 3 + calls.countP FdCall.isSocket ≤ 2 ^ 64)
    (ha : 100 + calls.countP FdCall.isAccept ≤ 2 ^ 64) :
    (descriptors .start calls).Nodup ↔
      calls.countP FdCall.isAccept = 0 ∨ calls.countP FdCall.isSocket ≤ 97 := by
  have hinj : Function.Injective (BitVec.toNat : Usize → ℕ) := fun _ _ h => BitVec.eq_of_toNat_eq h
  rw [(descriptors_perm _ _).nodup_iff, ← List.nodup_map_iff hinj, List.map_append,
    counterValues_toNat hs, counterValues_toNat ha, List.nodup_append]
  constructor
  · rintro ⟨-, -, hdisj⟩
    by_contra hboth
    rw [not_or, not_le] at hboth
    refine hdisj 100 ?_ 100 ?_ rfl
    · exact List.mem_range'_1.2 ⟨by decide, by change 100 < 3 + _; omega⟩
    · exact List.mem_range'_1.2 ⟨le_rfl, by change 100 < 100 + _; omega⟩
  · intro hfew
    refine ⟨List.nodup_range', List.nodup_range', fun a hma b hmb => ?_⟩
    have hlow : a < 3 + calls.countP FdCall.isSocket := (List.mem_range'_1.1 hma).2
    obtain ⟨hge, hhigh⟩ : 100 ≤ b ∧ b < 100 + calls.countP FdCall.isAccept :=
      List.mem_range'_1.1 hmb
    omega

/-- A socket and an accepted connection. -/
theorem descriptors_two :
    (descriptors .start [.socket ⟨2#64, 1#64, 0#64, 0#64, 0#64, 0#64⟩ ⟨1#64⟩,
      .accept ⟨3#64, 0#64, 0#64, 0#64, 0#64, 0#64⟩ ⟨2#64⟩]).Nodup :=
  (descriptors_nodup_iff _ (by decide) (by decide)).2 (.inr (by decide))

/-- The ninety-eighth socket and the first accepted connection are both descriptor 100. -/
theorem descriptors_meet :
    ¬(descriptors .start (List.replicate 98 (.socket ⟨2#64, 1#64, 0#64, 0#64, 0#64, 0#64⟩ ⟨1#64⟩) ++
      [.accept ⟨3#64, 0#64, 0#64, 0#64, 0#64, 0#64⟩ ⟨2#64⟩])).Nodup := by
  decide +kernel

end StarOS
