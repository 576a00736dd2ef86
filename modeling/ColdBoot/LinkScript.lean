import ColdBoot.Numeral

/-! # The linker script

The program is linked to run where the loader puts it: right behind the exception vectors and the
handoff block, with its stack at the top of a stock console's memory. For any other machine no
script is made. What the build prints is a list of instructions to the package manager. -/

namespace ColdBoot.LinkScript

/-- The machine that a script is made for. -/
def machine : String := "mips-nintendo64-none"

/-- Where the loader copies the program and jumps to. -/
def loadAddress : Nat := 0x80000400

/-- Top of the stack. -/
def stackTop : Nat := 0x803FFFF0

/-- Name of the script's file. -/
def fileName : String := "linker.ld"

/-- The layout of the program's sections, which does not depend on any address. -/
def sections : List String :=
  ["",
   "OUTPUT_FORMAT(\"elf32-bigmips\")",
   "ENTRY(_start)",
   "",
   "SECTIONS \x7b",
   "  . = __load_address;",
   "",
   "  .boot : \x7b KEEP(*(.boot)) \x7d",
   "  .text : \x7b *(.text*) \x7d",
   "  .rodata : ALIGN(8) \x7b *(.rodata*) \x7d",
   "  .data : ALIGN(8) \x7b *(.data*) *(.sdata*) \x7d",
   "",
   "  .bss (NOLOAD) : ALIGN(64) \x7b",
   "    __bss_start = .;",
   "    *(.sbss*)",
   "    *(.bss*)",
   "    *(COMMON)",
   "    . = ALIGN(8);",
   "    __bss_end = .;",
   "  \x7d",
   "",
   "  /DISCARD/ : \x7b *(.MIPS.abiflags) *(.reginfo) *(.comment) \x7d",
   "\x7d"]

/-- The definition of a symbol. -/
def define (symbol : String) (value : Nat) : String :=
  symbol ++ " = 0x" ++ Numeral.hexUpper 8 value ++ ";"

/-- The lines of the script. -/
def lines : List String :=
  [define "__load_address" loadAddress, define "__stack_top" stackTop] ++ sections

/-- Lines as a text, each with its end. -/
def text (lines : List String) : String := String.join (lines.map (· ++ "\n"))

/-! ### Paths -/

/-- The path of a file in a directory: a slash goes between them, unless one is there already or the
directory has no name. -/
def join (directory file : String) : String :=
  if directory.isEmpty || directory.endsWith "/" then directory ++ file
  else directory ++ "/" ++ file

/-- Whether a path leads to a directory when the current one is empty: none of its parts may be a
name. -/
def existsInEmptyTree (path : String) : Bool :=
  (path.splitOn "/").all fun part => part = "" || part = "." || part = ".."

/-! ### The build step -/

/-- What the build step did. -/
structure Outcome where
  succeeded : Bool
  /-- Lines printed. -/
  printed : List String
  /-- Lines of the script, if one was written. -/
  script : Option (List String)
  deriving DecidableEq, Repr

/-- The build step for a target machine and an output directory, which may not exist. -/
def build (target : Option String) (directory : String) (directoryExists : Bool) : Outcome :=
  let rerun := "cargo:rerun-if-changed=build.rs"
  match target with
  | none => ⟨false, [rerun], none⟩
  | some name =>
      if name ≠ machine then
        ⟨true,
          [rerun, "cargo:warning=Not targeting " ++ machine ++
            "; skipping linker script generation."],
          none⟩
      else if directoryExists then
        ⟨true, [rerun, "cargo:rustc-link-arg=-T" ++ join directory fileName], some lines⟩
      else
        ⟨false, [rerun], none⟩

end ColdBoot.LinkScript
