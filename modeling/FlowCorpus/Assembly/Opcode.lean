/-!
# Opcodes

The supported architectures and the groups their opcodes fall into. The groups of the first half
classify an instruction exclusively, the first matching one counting; those of the second half may
overlap.
-/

set_option autoImplicit false

namespace FlowCorpus.Assembly

/-- A supported architecture. -/
inductive Architecture where
  | arm
  | x86
  | mips
deriving DecidableEq, Repr

namespace Architecture

def name : Architecture → String
  | .arm => "ARM"
  | .x86 => "X86"
  | .mips => "MIPS"

def aliases : Architecture → List String
  | .x86 => ["x86", "x86_64", "x86-64", "x64", "amd64", "i386", "i686"]
  | .arm => ["arm", "arm32", "arm64", "aarch64", "armv7", "armel", "armhf", "thumb"]
  | .mips => ["mips", "mips32", "mips64", "mipsel", "mips64el"]

def all : List Architecture :=
  [.x86, .arm, .mips]

end Architecture

/-- The opcodes of one architecture by what they do. Shifts, floating comparisons and returns
also belong to wider groups. -/
structure Opcodes where
  call : List String
  transfer : List String
  arithmetic : List String
  bitwise : List String
  integerCompare : List String
  stack : List String
  unconditional : List String
  conditional : List String
  shift : List String
  floatCompare : List String
  floatTransfer : List String
  floatArithmetic : List String

def x86Opcodes : Opcodes where
  call := ["call", "callq", "lcall"]
  transfer :=
    ["mov", "movabs", "movzx", "movsx", "movsxd", "movsb", "movsw", "movsd", "movsq", "movd",
     "movq", "movaps", "movups", "movapd", "movupd", "movdqa", "movdqu", "lea", "push", "pop",
     "pushal", "popal", "pushfd", "popfd", "pushfq", "popfq", "xchg", "cmpxchg", "bswap", "cbw",
     "cwde", "cdqe", "cwd", "cdq", "cqo", "in", "out", "lodsb", "lodsd", "stosb", "stosd",
     "stosq", "lahf", "sahf", "cmove", "cmovne", "cmova", "cmovae", "cmovb", "cmovbe", "cmovg",
     "cmovge", "cmovl", "cmovle", "cmovs", "cmovns"]
  arithmetic :=
    ["add", "adc", "sub", "sbb", "mul", "imul", "div", "idiv", "inc", "dec", "neg", "xadd"]
  bitwise :=
    ["and", "or", "xor", "not", "andn", "bt", "bts", "btr", "btc", "pand", "por", "pxor",
     "andps", "orps", "xorps"]
  integerCompare := ["cmp", "test", "cmpsb", "cmpsw", "cmpsd", "cmpsq", "scasb", "scasd"]
  stack :=
    ["push", "pop", "pushal", "popal", "pushfd", "popfd", "pushfq", "popfq", "enter", "leave"]
  unconditional := ["jmp", "ljmp", "ret", "retn", "retf", "iret"]
  conditional :=
    ["je", "jne", "jz", "jnz", "ja", "jae", "jb", "jbe", "jg", "jge", "jl", "jle", "js", "jns",
     "jo", "jno", "jp", "jnp", "jpe", "jpo", "jc", "jnc", "jcxz", "jecxz", "jrcxz", "loop",
     "loope", "loopne"]
  shift := ["shl", "shr", "sal", "sar", "rol", "ror", "rcl", "rcr", "shld", "shrd"]
  floatCompare :=
    ["ucomiss", "ucomisd", "comiss", "comisd", "fcom", "fcomp", "fcompp", "fucom", "fucomp",
     "fucomi", "fcomi", "ftst"]
  floatTransfer :=
    ["fld", "fld1", "fldz", "fild", "fst", "fstp", "fist", "fistp", "fxch", "movss", "movsd",
     "movaps", "movapd", "cvtsi2sd", "cvtsi2ss", "cvttsd2si", "cvttss2si"]
  floatArithmetic :=
    ["fadd", "faddp", "fsub", "fsubp", "fmul", "fmulp", "fdiv", "fdivp", "fsqrt", "fabs", "fchs",
     "addss", "addsd", "subss", "subsd", "mulss", "mulsd", "divss", "divsd", "sqrtss", "sqrtsd"]

def armOpcodes : Opcodes where
  call := ["bl", "blx", "blr"]
  transfer :=
    ["mov", "movs", "movw", "movt", "movk", "movz", "movn", "mvn", "mvns", "ldr", "ldrb", "ldrh",
     "ldrsb", "ldrsh", "ldrsw", "ldrd", "ldur", "ldurb", "ldurh", "ldp", "ldm", "ldmia", "ldmfd",
     "ldmdb", "str", "strb", "strh", "strd", "stur", "sturb", "sturh", "stp", "stm", "stmia",
     "stmfd", "stmdb", "push", "pop", "adr", "adrp"]
  arithmetic :=
    ["add", "adds", "adc", "adcs", "sub", "subs", "sbc", "sbcs", "rsb", "rsbs", "rsc", "mul",
     "muls", "mla", "mls", "umull", "umlal", "smull", "smlal", "madd", "msub", "sdiv", "udiv",
     "neg", "negs"]
  bitwise := ["and", "ands", "orr", "orrs", "eor", "eors", "bic", "bics", "orn", "eon"]
  integerCompare := ["cmp", "cmn", "tst", "teq", "ccmp", "ccmn"]
  stack := ["push", "pop", "vpush", "vpop"]
  unconditional := ["b", "bx", "br", "ret", "b.al"]
  conditional :=
    ["beq", "bne", "bcs", "bhs", "bcc", "blo", "bmi", "bpl", "bvs", "bvc", "bhi", "bls", "bge",
     "blt", "bgt", "ble", "b.eq", "b.ne", "b.cs", "b.hs", "b.cc", "b.lo", "b.mi", "b.pl", "b.vs",
     "b.vc", "b.hi", "b.ls", "b.ge", "b.lt", "b.gt", "b.le", "cbz", "cbnz", "tbz", "tbnz"]
  shift := ["lsl", "lsls", "lsr", "lsrs", "asr", "asrs", "ror", "rors", "rrx"]
  floatCompare := ["vcmp", "vcmpe", "fcmp", "fcmpe"]
  floatTransfer :=
    ["vldr", "vstr", "vmov", "vldm", "vstm", "vpush", "vpop", "fmov", "scvtf", "ucvtf", "fcvtzs",
     "fcvtzu", "vcvt"]
  floatArithmetic :=
    ["vadd", "vsub", "vmul", "vdiv", "vneg", "vabs", "vsqrt", "vmla", "fadd", "fsub", "fmul",
     "fdiv", "fneg", "fabs", "fsqrt", "fmadd", "fmsub"]

/-- The opcodes of MIPS, which has no instructions for the stack alone. Returns count as
unconditional jumps. -/
def mipsOpcodes : Opcodes where
  call := ["jal", "jalr", "bal", "bgezal", "bltzal"]
  transfer :=
    ["lw", "sw", "lb", "lbu", "sb", "lh", "lhu", "sh", "ld", "sd", "lwl", "lwr", "swl", "swr",
     "ldl", "ldr", "sdl", "sdr", "ll", "sc", "move", "lui", "li", "la", "mfhi", "mflo", "mthi",
     "mtlo", "movn", "movz"]
  arithmetic :=
    ["add", "addu", "addi", "addiu", "sub", "subu", "mult", "multu", "div", "divu", "mul",
     "madd", "maddu", "msub", "msubu", "neg", "negu", "dadd", "daddu", "daddi", "daddiu", "dsub",
     "dsubu", "dmult", "dmultu", "ddiv", "ddivu"]
  bitwise := ["and", "andi", "or", "ori", "xor", "xori", "nor", "not"]
  integerCompare := ["slt", "sltu", "slti", "sltiu"]
  stack := []
  unconditional := ["j", "jr", "b"]
  conditional :=
    ["beq", "bne", "beqz", "bnez", "bgez", "bgtz", "blez", "bltz", "beql", "bnel", "bgezl",
     "bltzl", "bc1t", "bc1f"]
  shift :=
    ["sll", "sllv", "srl", "srlv", "sra", "srav", "dsll", "dsllv", "dsrl", "dsrlv", "dsra",
     "dsrav", "dsll32", "dsrl32", "dsra32"]
  floatCompare :=
    ["c.eq.s", "c.eq.d", "c.lt.s", "c.lt.d", "c.le.s", "c.le.d", "c.un.s", "c.un.d"]
  floatTransfer :=
    ["lwc1", "swc1", "ldc1", "sdc1", "mov.s", "mov.d", "mfc1", "mtc1", "cvt.s.d", "cvt.d.s"]
  floatArithmetic :=
    ["add.s", "add.d", "sub.s", "sub.d", "mul.s", "mul.d", "div.s", "div.d", "abs.s", "abs.d",
     "neg.s", "neg.d", "sqrt.s", "sqrt.d"]

def Architecture.opcodes : Architecture → Opcodes
  | .x86 => x86Opcodes
  | .arm => armOpcodes
  | .mips => mipsOpcodes

/-- A group of opcodes. -/
inductive OpcodeGroup where
  | call
  | transfer
  | arithmetic
  | logic
  | compare
  | stack
  | unconditional
  | conditional
  | shift
  | floatCompare
  | controlTransfer
  | conditionalTransfer
  | floatTransfer
  | floatArithmetic
deriving DecidableEq, Repr

namespace OpcodeGroup

def all : List OpcodeGroup :=
  [.call, .transfer, .arithmetic, .logic, .compare, .stack, .unconditional, .conditional, .shift,
    .floatCompare, .controlTransfer, .conditionalTransfer, .floatTransfer, .floatArithmetic]

def name : OpcodeGroup → String
  | .call => "call"
  | .transfer => "transfer"
  | .arithmetic => "arithmetic"
  | .logic => "logic"
  | .compare => "compare"
  | .stack => "stack"
  | .unconditional => "unconditional"
  | .conditional => "conditional"
  | .shift => "shift"
  | .floatCompare => "float_compare"
  | .controlTransfer => "control_transfer"
  | .conditionalTransfer => "cond_control_transfer"
  | .floatTransfer => "float_transfer"
  | .floatArithmetic => "float_arith"

end OpcodeGroup

/-- The opcodes of a group. The logic group takes in the shifts, the compare group the floating
comparisons, and control transfer joins calls and unconditional jumps. -/
def Opcodes.group (o : Opcodes) : OpcodeGroup → List String
  | .call => o.call
  | .transfer => o.transfer
  | .arithmetic => o.arithmetic
  | .logic => o.bitwise ++ o.shift
  | .compare => o.integerCompare ++ o.floatCompare
  | .stack => o.stack
  | .unconditional => o.unconditional
  | .conditional => o.conditional
  | .shift => o.shift
  | .floatCompare => o.floatCompare
  | .controlTransfer => o.call ++ o.unconditional
  | .conditionalTransfer => o.conditional
  | .floatTransfer => o.floatTransfer
  | .floatArithmetic => o.floatArithmetic

def Architecture.has (a : Architecture) (group : OpcodeGroup) (opcode : String) : Bool :=
  (a.opcodes.group group).contains opcode

def Architecture.ofCall? (opcode : String) : Option Architecture :=
  Architecture.all.find? fun a => a.has .call opcode

end FlowCorpus.Assembly
