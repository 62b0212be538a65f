/-!
# Targets and calling conventions

The two supported targets and the conventions that a foreign function may ask for.
-/

namespace CallLowering

/-- A supported target architecture. -/
inductive Target where
  | x86_64
  | aarch64
  deriving DecidableEq, Inhabited

namespace Target

/-- The text of a target. -/
def display : Target → String
  | x86_64 => "x86_64"
  | aarch64 => "aarch64"

end Target

/-- A calling convention of foreign calls. -/
inductive CallConv where
  | c
  | fast
  | stdCall
  | x86_64SysV
  | win64
  deriving DecidableEq, Inhabited

namespace CallConv

/-- The number of the convention in the LLVM numbering. -/
def llvmId : CallConv → Nat
  | c => 0
  | fast => 8
  | stdCall => 64
  | x86_64SysV => 78
  | win64 => 79

/-- The keyword of the convention in printed code. -/
def display : CallConv → String
  | c => "ccc"
  | fast => "fastcc"
  | stdCall => "x86_stdcallcc"
  | x86_64SysV => "x86_64_sysvcc"
  | win64 => "win64cc"

end CallConv

end CallLowering
