/-
VmProbe/Isa/Standard.lean

The instruction set of the machine, as a table, and the catalog that it expands to.
-/
import VmProbe.Isa.Catalog

namespace VmProbe.Isa

/-- Every instruction that the machine understands. -/
def standardTable : List Mnemonic :=
  [
    ⟨"nop", [.plain 0xA0 false []]⟩,
    ⟨"push",
      [.perInt 0x01 0x02 0x03 0x04 [.intType, .int],
        .plain 0x05 true [.intType, .intReg]]⟩,
    ⟨"pop",
      [.plain 0x06 true [.intType],
        .plain 0x07 true [.intType, .intReg]]⟩,
    ⟨"load",
      [.perInt 0x11 0x12 0x13 0x14 [.intType, .int, .intReg],
        .plain 0x15 true [.intType, .regOffset, .intReg]]⟩,
    ⟨"loadf",
      [.perFloat 0x16 0x17 [.floatType, .float, .floatReg],
        .plain 0x18 true [.floatType, .regOffset, .floatReg]]⟩,
    ⟨"store", [.plain 0x08 true [.intType, .intReg, .regOffset]]⟩,
    ⟨"storef", [.plain 0x09 true [.floatType, .floatReg, .regOffset]]⟩,
    ⟨"copy",
      [.perInt 0x21 0x22 0x23 0x24 [.intType, .int, .regOffset],
        .plain 0x25 true [.intType, .intReg, .intReg],
        .plain 0x26 true [.intType, .regOffset, .regOffset]]⟩,
    ⟨"copyf",
      [.perFloat 0x27 0x28 [.floatType, .float, .regOffset],
        .plain 0x29 true [.floatType, .floatReg, .floatReg],
        .plain 0x2A true [.floatType, .regOffset, .regOffset]]⟩,
    ⟨"exit", [.plain 0x50 false []]⟩,
    ⟨"call", [.plain 0x20 false [.label]]⟩,
    ⟨"ret", [.plain 0x30 false []]⟩,
    ⟨"sys", [.plain 0x40 false [.sysId]]⟩,
    ⟨"lea", [.plain 0x10 false [.regOffset, .intReg]]⟩,
    ⟨"add",
      [.perInt 0x31 0x32 0x33 0x34 [.intType, .intReg, .int],
        .plain 0x35 true [.intType, .intReg, .intReg]]⟩,
    ⟨"addf",
      [.perFloat 0x36 0x37 [.floatType, .floatReg, .float],
        .plain 0x38 true [.floatType, .floatReg, .floatReg]]⟩,
    ⟨"sub",
      [.perInt 0x41 0x42 0x43 0x44 [.intType, .intReg, .int],
        .plain 0x45 true [.intType, .intReg, .intReg]]⟩,
    ⟨"subf",
      [.perFloat 0x46 0x47 [.floatType, .floatReg, .float],
        .plain 0x48 true [.floatType, .floatReg, .floatReg]]⟩,
    ⟨"mul",
      [.perInt 0x51 0x52 0x53 0x54 [.intType, .intReg, .int],
        .plain 0x55 true [.intType, .intReg, .intReg]]⟩,
    ⟨"mulf",
      [.perFloat 0x56 0x57 [.floatType, .floatReg, .float],
        .plain 0x58 true [.floatType, .floatReg, .floatReg]]⟩,
    ⟨"muls",
      [.perInt 0x59 0x5A 0x5B 0x5C [.intType, .intReg, .int],
        .plain 0x5D true [.intType, .intReg, .intReg]]⟩,
    ⟨"div",
      [.perInt 0x61 0x62 0x63 0x64 [.intType, .intReg, .int],
        .plain 0x65 true [.intType, .intReg, .intReg]]⟩,
    ⟨"divf",
      [.perFloat 0x66 0x67 [.floatType, .floatReg, .float],
        .plain 0x68 true [.floatType, .floatReg, .floatReg]]⟩,
    ⟨"divs",
      [.perInt 0x69 0x6A 0x6B 0x6C [.intType, .intReg, .int],
        .plain 0x6D true [.intType, .intReg, .intReg]]⟩,
    ⟨"sqrt", [.plain 0x86 true [.floatType, .floatReg]]⟩,
    ⟨"mod", [.plain 0x96 true [.intType, .intReg, .intReg]]⟩,
    ⟨"and", [.plain 0x75 true [.intType, .intReg, .intReg]]⟩,
    ⟨"or", [.plain 0x85 true [.intType, .intReg, .intReg]]⟩,
    ⟨"xor", [.plain 0x95 true [.intType, .intReg, .intReg]]⟩,
    ⟨"not", [.plain 0xA5 true [.intType, .intReg]]⟩,
    ⟨"lsh", [.plain 0x76 false [.intReg, .intReg]]⟩,
    ⟨"rsh", [.plain 0x77 false [.intReg, .intReg]]⟩,
    ⟨"srsh", [.plain 0x78 false [.intReg, .intReg]]⟩,
    ⟨"b2l", [.plain 0xB1 false [.intReg]]⟩,
    ⟨"s2l", [.plain 0xB2 false [.intReg]]⟩,
    ⟨"i2l", [.plain 0xB3 false [.intReg]]⟩,
    ⟨"b2sl", [.plain 0xC1 false [.intReg]]⟩,
    ⟨"s2sl", [.plain 0xC2 false [.intReg]]⟩,
    ⟨"i2sl", [.plain 0xC3 false [.intReg]]⟩,
    ⟨"f2d", [.plain 0xB4 false [.floatReg]]⟩,
    ⟨"d2f", [.plain 0xC4 false [.floatReg]]⟩,
    ⟨"i2f", [.plain 0xB5 false [.intReg, .floatReg]]⟩,
    ⟨"i2d", [.plain 0xC5 false [.intReg, .floatReg]]⟩,
    ⟨"f2i", [.plain 0xB6 false [.floatReg, .intReg]]⟩,
    ⟨"d2i", [.plain 0xC6 false [.floatReg, .intReg]]⟩,
    ⟨"cmp", [.plain 0xD1 true [.intType, .intReg, .intReg]]⟩,
    ⟨"cmpf", [.plain 0xD5 true [.floatType, .floatReg, .floatReg]]⟩,
    ⟨"jmp", [.plain 0xE1 false [.label]]⟩,
    ⟨"je", [.plain 0xE2 false [.label]]⟩,
    ⟨"jne", [.plain 0xE3 false [.label]]⟩,
    ⟨"jgt", [.plain 0xE4 false [.label]]⟩,
    ⟨"jlt", [.plain 0xE5 false [.label]]⟩,
    ⟨"jge", [.plain 0xE6 false [.label]]⟩,
    ⟨"jle", [.plain 0xE7 false [.label]]⟩
  ]

/-- The catalog of the machine's instructions; its table has no fault, so it is not empty. -/
def standard : Catalog :=
  match Catalog.build standardTable with
  | .ok catalog => catalog
  | .error _ => .empty

end VmProbe.Isa
