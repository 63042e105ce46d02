namespace AsmIndex

structure Opcode where
  name : String
  summary : String
deriving DecidableEq

def sameIgnoringCase (a b : String) : Bool :=
  a.toList.map Char.toLower == b.toList.map Char.toLower

namespace Opcode

def all : List Opcode := [
  ⟨"mov", "Copy the source operand to the destination"⟩,
  ⟨"movl", "Copy a 32-bit value"⟩,
  ⟨"movq", "Copy a 64-bit value"⟩,
  ⟨"movb", "Copy an 8-bit value"⟩,
  ⟨"movw", "Copy a 16-bit value"⟩,
  ⟨"push", "Push a value onto the stack"⟩,
  ⟨"pushl", "Push a 32-bit value onto the stack"⟩,
  ⟨"pushq", "Push a 64-bit value onto the stack"⟩,
  ⟨"pop", "Pop a value from the stack"⟩,
  ⟨"popl", "Pop a 32-bit value from the stack"⟩,
  ⟨"popq", "Pop a 64-bit value from the stack"⟩,
  ⟨"ret", "Return from procedure"⟩,
  ⟨"call", "Call procedure"⟩,
  ⟨"jmp", "Unconditional jump"⟩,
  ⟨"je", "Jump if equal (ZF=1)"⟩,
  ⟨"jne", "Jump if not equal (ZF=0)"⟩,
  ⟨"jg", "Jump if greater (signed)"⟩,
  ⟨"jge", "Jump if greater or equal (signed)"⟩,
  ⟨"jl", "Jump if less (signed)"⟩,
  ⟨"jle", "Jump if less or equal (signed)"⟩,
  ⟨"jz", "Jump if zero (ZF=1)"⟩,
  ⟨"jnz", "Jump if not zero (ZF=0)"⟩,
  ⟨"add", "Integer addition"⟩,
  ⟨"addl", "32-bit integer addition"⟩,
  ⟨"addq", "64-bit integer addition"⟩,
  ⟨"sub", "Integer subtraction"⟩,
  ⟨"subl", "32-bit integer subtraction"⟩,
  ⟨"subq", "64-bit integer subtraction"⟩,
  ⟨"imul", "Signed multiply"⟩,
  ⟨"idiv", "Signed divide"⟩,
  ⟨"and", "Bitwise AND"⟩,
  ⟨"or", "Bitwise OR"⟩,
  ⟨"xor", "Bitwise exclusive OR"⟩,
  ⟨"not", "Bitwise NOT (one's complement)"⟩,
  ⟨"neg", "Two's complement negation"⟩,
  ⟨"inc", "Increment by 1"⟩,
  ⟨"dec", "Decrement by 1"⟩,
  ⟨"cmp", "Compare two operands and set flags"⟩,
  ⟨"test", "Bitwise AND that only sets flags"⟩,
  ⟨"lea", "Load effective address"⟩,
  ⟨"nop", "No operation"⟩,
  ⟨"int", "Call to interrupt procedure"⟩,
  ⟨"syscall", "Fast system call"⟩]

def find? (name : String) : Option Opcode :=
  all.find? fun opcode => sameIgnoringCase opcode.name name

end Opcode

namespace Register

def all : List String := [
  "%eax", "%ebx", "%ecx", "%edx", "%esi", "%edi", "%esp", "%ebp",
  "%rax", "%rbx", "%rcx", "%rdx", "%rsi", "%rdi", "%rsp", "%rbp",
  "%r8", "%r9", "%r10", "%r11", "%r12", "%r13", "%r14", "%r15",
  "%cs", "%ds", "%es", "%fs", "%gs", "%ss", "%cr0", "%cr2",
  "%cr3", "%cr4", "%db0", "%db1", "%db2", "%db3", "%db6", "%db7"]

def bare (name : String) : String :=
  match name.toList with
  | '%' :: rest => String.ofList rest
  | _ => name

/-- A register can be named with or without its percent sign. -/
def find? (name : String) : Option String :=
  all.find? fun register => sameIgnoringCase (bare register) (bare name)

def summary (register : String) : String :=
  match register.toList.dropWhile (· = '%') with
  | ['c', 's'] | ['d', 's'] | ['e', 's'] | ['f', 's'] | ['g', 's'] | ['s', 's'] =>
    "Segment register"
  | 'c' :: 'r' :: _ => "Control register"
  | 'd' :: 'b' :: _ => "Debug register"
  | 'e' :: _ => "32-bit general purpose register"
  | _ => "64-bit general purpose register"

end Register

end AsmIndex
