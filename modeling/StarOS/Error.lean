/-
The kernel's error values (`error.rs`).

Every fallible operation of the kernel returns `Result<T, KernelError>`, which is
`Except KernelError T` here.
-/

set_option autoImplicit false

namespace StarOS

/-- Memory subsystem errors. -/
inductive MemoryError where
  | outOfMemory | invalidAddress | invalidAlignment | permissionDenied | regionNotFound
  | alreadyMapped | notMapped | allocationFailed | invalidSize | tooManyRegions | doubleFree
  deriving DecidableEq, Repr

/-- Interrupt subsystem errors. -/
inductive InterruptError where
  | notInitialized | invalidIrq | alreadyRegistered | notRegistered | handlerFailed
  deriving DecidableEq, Repr

/-- Process subsystem errors. -/
inductive ProcessError where
  | invalidProcessId | processNotFound | tooManyProcesses | invalidPriority | alreadyTerminated
  | spawnFailed
  deriving DecidableEq, Repr

/-- Device subsystem errors. -/
inductive DeviceError where
  | notInitialized | notReady | timeout | ioError | invalidCommand | hardwareError
  deriving DecidableEq, Repr

/-- Security subsystem errors. -/
inductive SecurityError where
  | permissionDenied | invalidCredentials | verificationFailed | accessDenied
  deriving DecidableEq, Repr

/-- Filesystem errors. -/
inductive FilesystemError where
  | notFound | permissionDenied | alreadyExists | invalidPath | ioError | corruptedData
  deriving DecidableEq, Repr

/-- Network errors. -/
inductive NetworkError where
  | notConnected | timeout | invalidAddress | protocolError | connectionRefused
  deriving DecidableEq, Repr

/-- Top-level kernel error type. -/
inductive KernelError where
  | memory (e : MemoryError)
  | interrupt (e : InterruptError)
  | process (e : ProcessError)
  | filesystem (e : FilesystemError)
  | network (e : NetworkError)
  | device (e : DeviceError)
  | security (e : SecurityError)
  | notInitialized
  | invalidParameter (what : String)
  | invalidAddress
  | notFound
  | notSupported
  | timeout
  | resourceExhausted
  | operationFailed
  | notImplemented
  deriving DecidableEq, Repr

end StarOS
