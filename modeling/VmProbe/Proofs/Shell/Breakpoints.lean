/-
VmProbe/Proofs/Shell/Breakpoints.lean

What the console prints about breakpoints can be typed back.

Printed lines are read as lines of input if no line break is inside them
(`inputLines_unlines`).  An address has none, and its text is read as this address
(`Text.readAddress?_address`).  So the listing of the breakpoints tells the set, whatever the
client is:

    readListing? (listing of c)  =  the addresses of c, in ascending order
-/
import VmProbe.Proofs.Text.Address
import VmProbe.Proofs.Text.Utf8
import VmProbe.Shell.Run

namespace VmProbe.Shell

open Files (Tree)

variable {bytes line rest : List UInt8} {lines : List String}

/-! ### Lines -/

/-- A line ends at the first line break. -/
theorem inputLinesFrom_append (h : 0x0A ∉ bytes) :
    inputLines.inputLinesFrom line (bytes ++ 0x0A :: rest) =
      (line.reverse ++ bytes) :: inputLines rest := by
  induction bytes generalizing line with
  | nil =>
    rw [List.nil_append, inputLines.inputLinesFrom, if_pos rfl, List.append_nil, inputLines]
  | cons b bytes ih =>
    have hb : b ≠ 0x0A := fun hb => h (hb ▸ List.mem_cons_self)
    have hbytes : 0x0A ∉ bytes := fun hmem => h (List.mem_cons_of_mem b hmem)
    rw [List.cons_append, inputLines.inputLinesFrom, if_neg hb, ih hbytes, List.reverse_cons,
      List.append_assoc, List.singleton_append]

/-- Printed lines are read as lines of input. -/
theorem inputLines_unlines (h : ∀ l ∈ lines, '\n' ∉ l.toList) :
    inputLines (Text.encode (unlines lines)) = lines.map Text.encode := by
  induction lines with
  | nil =>
    have hnone : Text.encode (unlines []) = [] := Text.encode_ofList []
    rw [hnone]
    rfl
  | cons l lines ih =>
    obtain ⟨hl, hlines⟩ := List.forall_mem_cons.1 h
    have hunlines : unlines (l :: lines) = l ++ ("\n" ++ unlines lines) := by
      rw [unlines, List.map_cons, String.join_cons, String.append_assoc]
      rfl
    have hbreak : Text.encode "\n" = [0x0A] := Text.encode_ofList ['\n']
    rw [hunlines, Text.encode_append, Text.encode_append, hbreak, List.singleton_append, inputLines,
      inputLinesFrom_append (Text.newline_not_mem_encode hl), ih hlines]
    rfl

/-! ### Listings of addresses -/

/-- The addresses in a printed text, which has one in each line. -/
def readListing? (text : String) : Option (List UInt64) :=
  (inputLines (Text.encode text)).mapM fun line => (Text.decode? line).bind Text.readAddress?

theorem newline_not_mem_address (n : Nat) : '\n' ∉ (Text.address n).toList := by
  have hdigits : '\n' ∉ Text.fixedHexDigits .upper 16 n := by
    intro hmem
    obtain ⟨d, hd, hdigit⟩ := Text.exists_hexDigit_of_mem hmem
    have htable : ∀ d < 16, '\n' ≠ Text.hexDigit .upper d := by decide
    exact htable d hd hdigit
  rw [Text.toList_address]
  simpa using hdigits

/-- A listing of addresses, one in each line, tells the addresses. -/
theorem readListing?_unlines (addresses : List UInt64) :
    readListing? (unlines (addresses.map fun a => Text.address a.toNat)) = some addresses := by
  have hbreaks : ∀ l ∈ addresses.map fun a => Text.address a.toNat, '\n' ∉ l.toList :=
    List.forall_mem_map.2 fun a _ => newline_not_mem_address a.toNat
  rw [readListing?, inputLines_unlines hbreaks]
  clear hbreaks
  induction addresses with
  | nil => rfl
  | cons a addresses ih =>
    have hline : Text.decode? (Text.encode (Text.address a.toNat)) =
        some (Text.address a.toNat) := Text.decode?_eq_some_iff.2 rfl
    rw [List.map_cons, List.map_cons, List.mapM_cons, hline, Option.bind_some,
      Text.readAddress?_address, ih]
    rfl

/-- The command prints the listing, and that is all that it does. -/
theorem execute_breakpoints (files : Tree) (s : Session) (argument : Option String) :
    execute files s (Command.ofWord "breakpoints" argument).action =
      some (breakpointLines s.client, s) := by
  have hword : Command.ofWord "breakpoints" argument = .breakpoints := by simp [Command.ofWord]
  rw [hword]
  rfl

/-- No text is printed for events when there are none. -/
theorem answerText_self (lines : List String) (c : Client) :
    answerText lines c c = unlines lines := by
  rw [answerText, eventsText, List.drop_length, List.map_nil]
  exact String.append_empty

/-- **Addresses that are printed can be typed back.**  The text of an address has eighteen
characters and is read as this address, also as the argument of the command that toggles a
breakpoint; so no two addresses have the same text.  What the console prints for the breakpoints
is read, line by line, as the addresses of the set in their order. -/
theorem addresses_read_back :
    (∀ v : UInt64, (Text.address v.toNat).length = 18 ∧
      Text.readAddress? (Text.address v.toNat) = some v ∧
        Command.ofWord "break" (some (Text.address v.toNat)) = .toggle v) ∧
    (Function.Injective fun v : UInt64 => Text.address v.toNat) ∧
    ∀ (files : Tree) (s : Session) (argument : Option String), ∃ lines,
      execute files s (Command.ofWord "breakpoints" argument).action = some (lines, s) ∧
        readListing? (answerText lines s.client s.client) =
          some s.client.breakpoints.addresses := by
  refine ⟨fun v => ⟨Text.length_address v.toNat, Text.readAddress?_address v, ?toggle⟩,
    fun v v' h => ?injective, fun files s argument =>
      ⟨_, execute_breakpoints files s argument, ?listing⟩⟩
  case toggle =>
    have hword (text : String) : Command.ofWord "break" (some text) = Command.toggleText text := by
      simp [Command.ofWord, Command.withArgument]
    rw [hword, Command.toggleText, Text.readAddress?_address]
  case injective =>
    have hread : some v = some v' := by
      rw [← Text.readAddress?_address v, ← Text.readAddress?_address v']
      exact congrArg Text.readAddress? h
    exact Option.some.inj hread
  case listing =>
    rw [answerText_self, breakpointLines, readListing?_unlines]

end VmProbe.Shell
