/-
VmProbe/Proofs/Wire/Extension.lean

Frames that go on.

A frame may arrive in parts, so the same bytes are read with less and with more after them.  Both
readers ask for the bytes that they want before they look at them, and look at them from the front.
So more bytes change nothing but an answer that asks for them:

    Extends l l' grow x y

says that of the result `x` of a frame of `l` bytes and the result `y` of a longer one of `l'`
bytes.  A value grows by the new bytes, an error stays, and a frame that ends too early does so in
the same way until it has the bytes that were asked for.  Checks that come one after another keep
this up, so each reader is followed check by check.

Main statement: `parse_stable_under_extension`, for requests, which ignore what follows, and for
replies, which take it for what the program has printed if they carry registers.
-/
import Mathlib
import VmProbe.Wire.Reply

namespace VmProbe.Wire

variable {α β : Type} {x y : Except ProtocolError α} {grow : α → α} {l l' n : Nat}
variable {frame body rest : List UInt8}

/-! ### Results of longer frames -/

/-- The error says that the frame is too short. -/
def ProtocolError.IsTruncated (e : ProtocolError) : Prop :=
  ∃ length needed, e = .truncated length needed

/-- `x` is the result of a frame of `l` bytes, and `y` that of the frame with more bytes, `l'` in
all, after which a value has grown. -/
structure Extends (l l' : Nat) (grow : α → α) (x y : Except ProtocolError α) : Prop where
  read : ∀ a, x = .ok a → y = .ok (grow a)
  refused : ∀ e, x = .error e → ¬ e.IsTruncated → y = .error e
  beyond : ∀ length needed, x = .error (.truncated length needed) → length = l ∧ l < needed
  short : ∀ length needed, x = .error (.truncated length needed) → l' < needed →
    y = .error (.truncated l' needed)

theorem Extends.ok (a : α) : Extends l l' grow (.ok a) (.ok (grow a)) where
  read := by
    rintro _ ⟨⟩
    rfl
  refused := nofun
  beyond := nofun
  short := nofun

theorem Extends.error {e : ProtocolError} (he : ¬ e.IsTruncated) :
    Extends l l' grow (.error e) (.error e) where
  read := nofun
  refused := by
    rintro _ ⟨⟩ -
    rfl
  beyond length needed h := absurd ⟨length, needed, Except.error.inj h⟩ he
  short length needed h := absurd ⟨length, needed, Except.error.inj h⟩ he

/-- A frame that is too short asks for more bytes than it has, and for as many again until it has
them. -/
theorem Extends.truncated (h : l < n) (hy : l' < n → y = .error (.truncated l' n)) :
    Extends l l' grow (.error (.truncated l n)) y where
  read := nofun
  refused _ he hnot := absurd ⟨l, n, (Except.error.inj he).symm⟩ hnot
  beyond := by
    rintro _ _ ⟨⟩
    exact ⟨rfl, h⟩
  short := by
    rintro _ _ ⟨⟩
    exact hy

/-- What comes after a check of the length matters only if the shorter frame passes it. -/
theorem Extends.check (hle : l ≤ l') (h : n ≤ l → Extends l l' grow x y) :
    Extends l l' grow (if l < n then .error (.truncated l n) else x)
      (if l' < n then .error (.truncated l' n) else y) := by
  by_cases hn : l < n
  · rw [if_pos hn]
    exact .truncated hn fun hn' => if_pos hn'
  · rw [if_neg hn, if_neg (by omega)]
    exact h (Nat.not_lt.1 hn)

theorem Extends.map {f : α → β} {grow' : β → β} (h : Extends l l' grow x y)
    (hf : ∀ a, f (grow a) = grow' (f a)) : Extends l l' grow' (x.map f) (y.map f) := by
  rcases x with e | a
  · refine ⟨nofun, fun e' he hnot => ?_, fun length needed he => ?_, fun length needed he hlt => ?_⟩
    · obtain rfl := Except.error.inj he
      rw [h.refused e rfl hnot]
      rfl
    · exact h.beyond length needed (congrArg Except.error (Except.error.inj he))
    · rw [h.short length needed (congrArg Except.error (Except.error.inj he)) hlt]
      rfl
  · obtain rfl := h.read a rfl
    show Extends l l' grow' (.ok (f a)) (.ok (f (grow a)))
    rw [hf]
    exact .ok (f a)

/-! ### Headers -/

/-- Behind a header the frame and the longer one have the same header, and the rest goes on. -/
theorem header_append (h : headerLength ≤ frame.length) (rest : List UInt8) :
    (frame ++ rest).take 8 = frame.take 8 ∧ (frame ++ rest).getD 8 0 = frame.getD 8 0 ∧
      (frame ++ rest).drop headerLength = frame.drop headerLength ++ rest := by
  have hlt : 8 < frame.length := h
  exact ⟨List.take_append_of_le_length hlt.le, List.getD_append _ _ _ _ hlt,
    List.drop_append_of_le_length h⟩

/-- The bytes behind the header are as many as the frame has more than it. -/
theorem length_eq_header_add (h : headerLength ≤ frame.length) :
    frame.length = headerLength + (frame.drop headerLength).length := by
  rw [List.length_drop, Nat.add_sub_cancel' h]

theorem length_append_eq (h : headerLength ≤ frame.length) (rest : List UInt8) :
    (frame ++ rest).length = headerLength + (frame.drop headerLength ++ rest).length := by
  rw [List.length_append, List.length_append, ← Nat.add_assoc, ← length_eq_header_add h]

/-- Reads a frame: the magic number and the opcode are checked, and what comes behind them is left
to `read`, which is told the length of the whole frame. -/
def readFrame (number : List UInt8 → Nat) (magic : Nat)
    (read : Nat → Opcode → List UInt8 → Except ProtocolError α) (frame : List UInt8) :
    Except ProtocolError α :=
  if frame.length < headerLength then .error (.truncated frame.length headerLength)
  else if number (frame.take 8) ≠ magic then .error (.badMagic (number (frame.take 8)))
  else
    match Opcode.ofByte? (frame.getD 8 0) with
    | none => .error (.unknownOpcode (frame.getD 8 0))
    | some o => read frame.length o (frame.drop headerLength)

/-- The header is checked before the rest, so a frame extends as far as what is behind it does. -/
theorem extends_readFrame {number : List UInt8 → Nat} {magic : Nat}
    {read : Nat → Opcode → List UInt8 → Except ProtocolError α}
    (hread : ∀ o body, Extends (headerLength + body.length) (headerLength + (body ++ rest).length)
      grow (read (headerLength + body.length) o body)
      (read (headerLength + (body ++ rest).length) o (body ++ rest))) (frame : List UInt8) :
    Extends frame.length (frame ++ rest).length grow (readFrame number magic read frame)
      (readFrame number magic read (frame ++ rest)) := by
  rw [readFrame, readFrame]
  refine .check (by rw [List.length_append]; omega) fun h => ?_
  obtain ⟨hmagic, hbyte, hbody⟩ := header_append h rest
  rw [hmagic, hbyte, hbody]
  split_ifs
  · exact .error (by rintro ⟨_, _, ⟨⟩⟩)
  · rcases Opcode.ofByte? (frame.getD 8 0) with - | o
    · exact .error (by rintro ⟨_, _, ⟨⟩⟩)
    · have hextends := hread o (frame.drop headerLength)
      rwa [← length_append_eq h rest, ← length_eq_header_add h] at hextends

/-! ### Requests -/

namespace Request

/-- A body is asked for all that its opcode wants, a file after its length. -/
theorem extends_ofBody (o : Opcode) (body rest : List UInt8) :
    Extends (headerLength + body.length) (headerLength + (body ++ rest).length) id
      (ofBody (headerLength + body.length) body o)
      (ofBody (headerLength + (body ++ rest).length) (body ++ rest) o) := by
  have hle : headerLength + body.length ≤ headerLength + (body ++ rest).length := by
    rw [List.length_append]
    omega
  have hlt (bytes : List UInt8) (k : Nat) :
      bytes.length < k ↔ headerLength + bytes.length < headerLength + k := by omega
  have herror (b : UInt8) : ¬ (ProtocolError.unknownOpcode b).IsTruncated := nofun
  cases o with
  | setBreakpoint | removeBreakpoint =>
    rw [ofBody, ofBody]
    simp only [hlt]
    refine .check hle fun h => ?_
    rw [List.take_append_of_le_length (Nat.le_of_add_le_add_left h)]
    exact .ok _
  | run =>
    rw [ofBody, ofBody]
    dsimp only
    simp only [hlt body, hlt (body ++ rest)]
    refine .check hle fun h => ?_
    have hfour : 4 ≤ body.length := Nat.le_of_add_le_add_left h
    -- the four bytes of the length are there, so both frames ask for the same file
    rw [List.take_append_of_le_length hfour, List.drop_append_of_le_length hfour]
    generalize Bytes.ofLittleEndian (body.take 4) = size
    have hdrop : (body.drop 4).length < size ↔
        headerLength + body.length < headerLength + 4 + size := by
      rw [List.length_drop]
      omega
    have hdrop' : (body.drop 4 ++ rest).length < size ↔
        headerLength + (body ++ rest).length < headerLength + 4 + size := by
      rw [List.length_append, List.length_append, List.length_drop]
      omega
    simp only [hdrop, hdrop']
    refine .check hle fun h => ?_
    rw [List.take_append_of_le_length (by rw [List.length_drop]; omega)]
    exact .ok _
  | error => exact .error (herror _)
  | executionFinished => exact .error (herror _)
  | _ => exact .ok _

theorem extends_parse (frame rest : List UInt8) :
    Extends frame.length (frame ++ rest).length id (parse frame) (parse (frame ++ rest)) := by
  have hparse (frame : List UInt8) : parse frame = readFrame Bytes.ofBigEndian requestMagic
      (fun length o body => ofBody length body o) frame := rfl
  rw [hparse, hparse]
  exact extends_readFrame (fun o body => extends_ofBody o body rest) frame

end Request

/-! ### Replies -/

/-- The payload of a longer frame: what comes behind registers was printed by the program. -/
def Payload.extended (rest : List UInt8) : Payload → Payload
  | .registers values console => .registers values (console ++ rest)
  | p => p

/-- The reply in a longer frame. -/
def Reply.extended (rest : List UInt8) (r : Reply) : Reply :=
  ⟨r.opcode, r.payload.extended rest⟩

namespace Reply

/-- The entries of a block are read from the bytes of the block. -/
theorem parseEntries_append {count : Nat} (seen : List Machine.Register)
    (h : count * registerEntryLength ≤ body.length) (rest : List UInt8) :
    parseEntries seen count (body ++ rest) = parseEntries seen count body := by
  induction count generalizing seen body with
  | zero => rfl
  | succ count ih =>
    rw [Nat.succ_mul] at h
    have hentry : registerEntryLength ≤ body.length := (Nat.le_add_left _ _).trans h
    have hnine : 1 + 8 ≤ body.length := hentry
    have hhead : (body ++ rest).headD 0 = body.headD 0 := by
      rcases body with - | ⟨b, body⟩
      · cases hentry
      · rfl
    have hraw : ((body ++ rest).drop 1).take 8 = (body.drop 1).take 8 := by
      rw [List.drop_append_of_le_length (by omega),
        List.take_append_of_le_length (by rw [List.length_drop]; omega)]
    have hlater : count * registerEntryLength ≤ (body.drop registerEntryLength).length := by
      rw [List.length_drop]
      omega
    rw [parseEntries, parseEntries, hhead, hraw, List.drop_append_of_le_length hentry]
    simp only [ih _ hlater]

theorem extends_parseError (body rest : List UInt8) :
    Extends (headerLength + body.length) (headerLength + (body ++ rest).length) id
      (parseError (headerLength + body.length) body)
      (parseError (headerLength + (body ++ rest).length) (body ++ rest)) := by
  rcases body with - | ⟨code, body⟩
  · refine .truncated (Nat.lt_succ_self _) fun h => ?_
    rw [List.nil_append] at h
    obtain rfl : rest = [] := List.length_eq_zero_iff.1 (by omega)
    rfl
  · rw [List.cons_append]
    simp only [parseError]
    split_ifs
    · exact .ok _
    · exact .ok _
    · rcases body with - | ⟨byte, body⟩
      · refine .truncated (Nat.lt_succ_self _) fun h => ?_
        rw [List.nil_append, List.length_cons] at h
        obtain rfl : rest = [] := List.length_eq_zero_iff.1 (by omega)
        rfl
      · rw [List.cons_append]
        dsimp only
        rcases Machine.Fault.ofByte? byte with - | kind
        · exact .error (by rintro ⟨_, _, ⟨⟩⟩)
        · exact .ok _
    · exact .ok _
    · exact .ok _
    · exact .ok _
    · exact .error (by rintro ⟨_, _, ⟨⟩⟩)

/-- Of the entries only an id can be wrong. -/
theorem not_isTruncated_of_parseEntries {count : Nat} {seen : List Machine.Register}
    {e : ProtocolError} (h : parseEntries seen count body = .error e) : ¬ e.IsTruncated := by
  induction count generalizing seen body with
  | zero => cases h
  | succ count ih =>
    simp only [parseEntries] at h
    split at h
    · obtain rfl := Except.error.inj h
      rintro ⟨_, _, ⟨⟩⟩
    · split_ifs at h
      · obtain rfl := Except.error.inj h
        rintro ⟨_, _, ⟨⟩⟩
      · split at h
        · next hrest =>
          obtain rfl := Except.error.inj h
          exact ih hrest
        · cases h

theorem extends_parsePayload (o : Opcode) (body rest : List UInt8) :
    Extends (headerLength + body.length) (headerLength + (body ++ rest).length)
      (Payload.extended rest) (parsePayload (headerLength + body.length) o body)
      (parsePayload (headerLength + (body ++ rest).length) o (body ++ rest)) := by
  have hlt (bytes : List UInt8) : bytes.length < registerBlockLength ↔
      headerLength + bytes.length < headerLength + registerBlockLength := by omega
  rw [parsePayload, parsePayload]
  by_cases herror : o = .error
  · rw [if_pos herror, if_pos herror]
    exact (extends_parseError body rest).map fun _ => rfl
  · rw [if_neg herror, if_neg herror]
    cases hcarries : o.carriesRegisters with
    | false => exact .ok _
    | true =>
      simp only [if_true, hlt]
      refine .check (by rw [List.length_append]; omega) fun h => ?_
      have hblock : Machine.Register.count * registerEntryLength ≤ body.length :=
        Nat.le_of_add_le_add_left h
      have hconsole : (body ++ rest).drop registerBlockLength =
          body.drop registerBlockLength ++ rest := List.drop_append_of_le_length hblock
      rw [parseEntries_append [] hblock, hconsole]
      rcases hentries : parseEntries [] Machine.Register.count body with e | values
      · exact .error (not_isTruncated_of_parseEntries hentries)
      · exact .ok _

theorem extends_parse (frame rest : List UInt8) :
    Extends frame.length (frame ++ rest).length (Reply.extended rest) (parse frame)
      (parse (frame ++ rest)) := by
  have hparse (frame : List UInt8) : parse frame = readFrame Bytes.ofLittleEndian replyMagic
      (fun length o body => (parsePayload length o body).map (Reply.mk o)) frame := rfl
  rw [hparse, hparse]
  refine extends_readFrame (fun o body => ?_) frame
  exact (extends_parsePayload o body rest).map (f := Reply.mk o) fun _ => rfl

end Reply

/-! ### Stability -/

/-- A reader of frames is stable under extension when more bytes behind a frame change nothing but
an answer that asks for them: a value is the same, extended by the bytes where that means
something; an error stays; and a frame that is too short is too short in the same way until it
has the bytes that it needs. -/
structure StableUnderExtension (parse : List UInt8 → Except ProtocolError α)
    (extended : List UInt8 → α → α) : Prop where
  read : ∀ frame rest a, parse frame = .ok a → parse (frame ++ rest) = .ok (extended rest a)
  refused : ∀ frame rest e, parse frame = .error e →
    (∀ length needed, e ≠ .truncated length needed) → parse (frame ++ rest) = .error e
  beyond : ∀ frame length needed, parse frame = .error (.truncated length needed) →
    length = frame.length ∧ frame.length < needed
  short : ∀ frame rest length needed, parse frame = .error (.truncated length needed) →
    (frame ++ rest).length < needed →
      parse (frame ++ rest) = .error (.truncated (frame ++ rest).length needed)
  enough : ∀ frame rest length needed, parse frame = .error (.truncated length needed) →
    needed ≤ (frame ++ rest).length →
      ∀ length', parse (frame ++ rest) ≠ .error (.truncated length' needed)

/-- A reader is stable if its results extend. -/
theorem stableUnderExtension_of_extends {parse : List UInt8 → Except ProtocolError α}
    {extended : List UInt8 → α → α}
    (h : ∀ frame rest, Extends frame.length (frame ++ rest).length (extended rest) (parse frame)
      (parse (frame ++ rest))) : StableUnderExtension parse extended where
  read frame rest := (h frame rest).read
  refused frame rest e he hnot := (h frame rest).refused e he fun ⟨length, needed, heq⟩ =>
    hnot length needed heq
  beyond frame length needed he := (h frame []).beyond length needed he
  short frame rest := (h frame rest).short
  enough frame rest length needed _ hle length' he := by
    -- the longer frame asks for more than it has, too
    obtain ⟨-, hlt⟩ := (h (frame ++ rest) []).beyond length' needed he
    exact absurd hlt (Nat.not_lt.2 hle)

/-- **Reading frames is stable under extension,** for requests and for replies. -/
theorem parse_stable_under_extension :
    StableUnderExtension Request.parse (fun _ r => r) ∧
      StableUnderExtension Reply.parse Reply.extended :=
  ⟨stableUnderExtension_of_extends Request.extends_parse,
    stableUnderExtension_of_extends Reply.extends_parse⟩

end VmProbe.Wire
