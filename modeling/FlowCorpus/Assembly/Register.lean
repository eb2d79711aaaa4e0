/-!
# Registers

The register names that normalization masks by their width.
-/

set_option autoImplicit false

namespace FlowCorpus.Assembly

def framePointers : List String :=
  ["rbp", "ebp", "x29", "s8"]

/-- The general-purpose registers of thirty-two bits: those of x86, of AArch64, of ARM (of which
the ones with names of their own are left as they are) and of MIPS. -/
def registers32 : List String :=
  ["eax", "ebx", "ecx", "edx", "esi", "edi", "r8d", "r9d", "r10d", "r11d", "r12d", "r13d",
   "r14d", "r15d"] ++
  ["w0", "w1", "w2", "w3", "w4", "w5", "w6", "w7", "w8", "w9", "w10", "w11", "w12", "w13", "w14",
   "w15", "w16", "w17", "w18", "w19", "w20", "w21", "w22", "w23", "w24", "w25", "w26", "w27",
   "w28", "w29", "w30"] ++
  ["r0", "r1", "r2", "r3", "r4", "r5", "r6", "r7", "r8"] ++
  ["v0", "v1", "a0", "a1", "a2", "a3", "t0", "t1", "t2", "t3", "t4", "t5", "t6", "t7", "t8",
   "t9", "s0", "s1", "s2", "s3", "s4", "s5", "s6", "s7"]

def registers64 : List String :=
  ["rax", "rbx", "rcx", "rdx", "rsi", "rdi", "rbp", "r8", "r9", "r10", "r11", "r12", "r13",
   "r14", "r15"] ++
  ["x0", "x1", "x2", "x3", "x4", "x5", "x6", "x7", "x8", "x9", "x10", "x11", "x12", "x13", "x14",
   "x15", "x16", "x17", "x18", "x19", "x20", "x21", "x22", "x23", "x24", "x25", "x26", "x27",
   "x28", "x30"]

def riscvRegisters : List String :=
  ["a0", "a1", "a2", "a3", "a4", "a5", "a6", "a7", "t0", "t1", "t2", "t3", "t4", "t5", "t6",
   "s0", "s1", "s2", "s3", "s4", "s5", "s6", "s7", "s8", "s9", "s10", "s11"]

/-- The mask of a general-purpose register. A name of both widths counts as one of thirty-two
bits. -/
def registerMask? (name : String) : Option String :=
  if registers32.contains name then some "reg32"
  else if registers64.contains name then some "reg64"
  else none

end FlowCorpus.Assembly
