/-
VmProbe/Proofs/Client/Output.lean

The output of the program.

The server sends what the program printed in parts, one with each reply that carries registers.
Each part is read by itself and appended to the console, and is published as it is appended.  So
as long as no line about the session is printed (`Step.Quiet`), the console grows by the texts of
the parts, whatever else happens.

Main statement: this is the text of the whole output if and only if no cut between two parts is
inside a character (`output_eq_text_of_whole_iff`).  More cannot be had from a console that only
appends: when the first byte of a character has come, either it is replaced at once or the text
of the output so far is not shown (`exists_ne_decodeLossy_of_appends`).
-/
import VmProbe.Proofs.Client.Opening
import VmProbe.Proofs.Client.Run
import VmProbe.Proofs.Text.Lossy

namespace VmProbe

open Client
open Text (decodeLossy Unbroken)
open Wire (Opcode Reply)

namespace Client

/-- The text in an event. -/
def Event.output? : Event → Option String
  | output text => some text
  | _ => none

/-- What the program printed, as far as a step brings it. -/
def Step.printed : Step → List UInt8
  | receive r =>
    match r.payload with
    | .registers _ console => console
    | _ => []
  | _ => []

/-- Whether a reply with this opcode leads to no line about the session. -/
def quiet (o : Opcode) : Bool :=
  match o with
  | .openSession | .closeSession | .executionFinished => false
  | _ => true

/-- A step that prints no line about the session. -/
def Step.Quiet : Step → Prop
  | load _ => True
  | toggle _ => True
  | close => False
  | print _ => False
  | receive r => quiet r.opcode ∧ ∀ e, r.payload ≠ .error e

variable {c c' c'' : Client} {text text' : String} {steps : List Step} {t : Step}

/-! ### What a client shows -/

/-- `c.Shows text c'`: since `c` the text was added to the console, and published. -/
structure Shows (c : Client) (text : String) (c' : Client) : Prop where
  console : c'.console = c.console ++ text
  published : ∃ es, c'.published = c.published ++ es ∧
    String.join (es.filterMap Event.output?) = text

theorem Shows.refl (c : Client) : c.Shows "" c :=
  ⟨(String.append_empty).symm, [], (List.append_nil _).symm, rfl⟩

theorem Shows.trans (h : c.Shows text c') (h' : c'.Shows text' c'') :
    c.Shows (text ++ text') c'' := by
  obtain ⟨hconsole, es, hpub, hes⟩ := h
  obtain ⟨hconsole', es', hpub', hes'⟩ := h'
  refine ⟨?_, es ++ es', ?_, ?_⟩
  · rw [hconsole', hconsole, String.append_assoc]
  · rw [hpub', hpub, List.append_assoc]
  · rw [List.filterMap_append, String.join_append, hes, hes']

/-- Only one text was added. -/
theorem Shows.unique (h : c.Shows text c') (h' : c.Shows text' c') : text = text' :=
  (String.append_right_inj c.console).1 (h.console.symm.trans h'.console)

/-- A change that publishes one event, which is no text. -/
theorem Shows.of_event {e : Event} (hconsole : c'.console = c.console)
    (hpub : c'.published = c.published ++ [e]) (he : e.output? = none) : c.Shows "" c' := by
  refine ⟨hconsole.trans String.append_empty.symm, [e], hpub, ?_⟩
  rw [List.filterMap_cons_none he]
  rfl

theorem shows_enter (c : Client) (p : Phase) : c.Shows "" (c.enter p) := by
  rw [enter]
  split_ifs
  · exact .refl c
  · exact .of_event (e := .phase p) rfl rfl rfl

theorem shows_finish (c : Client) : c.Shows "" c.finish := by
  rw [finish]
  split_ifs
  · exact shows_enter c .fileLoaded
  · exact .refl c

theorem shows_load (c : Client) (l : Loaded) : c.Shows "" (c.load l) := by
  have hloaded : c.Shows ""
      ({ c with loaded := some l }.publish (.loaded l.image.entry l.lines.length)) :=
    .of_event rfl rfl rfl
  rw [load]
  split_ifs
  · exact hloaded.trans (shows_enter _ .fileLoaded)
  · exact hloaded

theorem shows_output (c : Client) (text : String) : c.Shows text (c.output text) :=
  ⟨rfl, [.output text], rfl, String.join_cons.trans String.append_empty⟩

/-- An update shows the text of the bytes; there is no event for a text that is empty. -/
theorem shows_update (c : Client) (values : List (Machine.Register × UInt64))
    (console : List UInt8) : c.Shows (decodeLossy console) (c.update values console) := by
  have hbank : c.Shows ""
      ({ c with bank := c.bank.apply values }.publish (.registers (c.bank.apply values))) :=
    .of_event rfl rfl rfl
  rw [update]
  rcases console with - | ⟨b, console⟩
  · exact hbank
  · have hshows := hbank.trans (shows_output _ (decodeLossy (b :: console)))
    rwa [String.empty_append] at hshows

theorem shows_acknowledge (c : Client) {o : Opcode} (h : quiet o) :
    c.Shows "" (c.acknowledge o) := by
  cases o with
  | openSession => cases h
  | closeSession => cases h
  | executionFinished => cases h
  | run => exact shows_enter c .running
  | resume => exact shows_enter c .running
  | stop => exact shows_finish c
  | _ => exact .refl c

/-- **A quiet step shows what the program printed.** -/
theorem shows_apply (c : Client) (h : t.Quiet) : c.Shows (decodeLossy t.printed) (t.apply c) := by
  cases t with
  | load l => exact shows_load c l
  | toggle address => exact .of_event (e := .breakpoints _) rfl rfl rfl
  | close => cases h
  | print line => cases h
  | receive r =>
    obtain ⟨o, payload⟩ := r
    obtain ⟨ho, hpayload⟩ := h
    cases payload with
    | error e => exact absurd rfl (hpayload e)
    | empty => exact shows_acknowledge c ho
    | registers values console =>
      have hshows := (shows_update c values console).trans (shows_acknowledge _ ho)
      rwa [String.append_empty] at hshows

/-- Quiet steps show what the program printed, part by part. -/
theorem shows_through (c : Client) (h : ∀ t ∈ steps, t.Quiet) :
    c.Shows (String.join ((steps.map Step.printed).map decodeLossy)) (c.through steps) := by
  induction steps generalizing c with
  | nil => exact .refl c
  | cons t steps ih =>
    obtain ⟨ht, hsteps⟩ := List.forall_mem_cons.1 h
    rw [List.map_cons, List.map_cons, String.join_cons]
    exact (shows_apply c ht).trans (ih (t.apply c) hsteps)

/-- **The text of the output is that of its parts.**  While no line about the session is printed,
the texts of the parts are appended to the console, and published, one after another.  This is
the text of the whole output if and only if no cut between two parts is inside a character. -/
theorem output_eq_text_of_whole_iff (c : Client) (h : ∀ t ∈ steps, t.Quiet) :
    let parts := steps.map Step.printed
    c.Shows (String.join (parts.map decodeLossy)) (c.through steps) ∧
      (c.Shows (decodeLossy parts.flatten) (c.through steps) ↔ Unbroken parts) := by
  intro parts
  have hshows := shows_through c h
  refine ⟨hshows, ?_⟩
  rw [← Text.decodeLossy_flatten_iff]
  constructor
  · exact fun hwhole => hshows.unique hwhole
  · exact fun heq => heq ▸ hshows

/-- A greeting in two parts, neither of which cuts a character. -/
theorem output_eq_text_of_whole_iff_greeting :
    let part (console : List UInt8) := Step.receive ⟨.getRegisters, .registers [] console⟩
    let steps := [part [0x48, 0x69], part [0xC3, 0xA9]]
    (∀ t ∈ steps, t.Quiet) ∧ new.Shows (String.join ["Hi", "é"]) (new.through steps) := by
  intro part steps
  have hquiet : ∀ t ∈ steps, t.Quiet := by
    refine List.forall_mem_cons.2 ⟨⟨rfl, ?_⟩, List.forall_mem_singleton.2 ⟨rfl, ?_⟩⟩
    · rintro e ⟨⟩
    · rintro e ⟨⟩
  have htexts : (steps.map Step.printed).map decodeLossy = ["Hi", "é"] := by decide +kernel
  exact ⟨hquiet, htexts ▸ (output_eq_text_of_whole_iff new hquiet).1⟩

/-- The two bytes of a character, cut apart, are replaced one by one. -/
theorem output_cut_inside_character :
    let part (console : List UInt8) := Exchange.reply (Reply.registerFrame 0x10 [] console)
    let whole := (Session.facing [part [0xC3, 0xA9]]).operate .refresh
    let cut := ((Session.facing [part [0xC3], part [0xA9]]).operate .refresh).operate .refresh
    whole.client.console = "é" ∧ whole.client.published.filterMap Event.output? = ["é"] ∧
      cut.client.console = "\uFFFD\uFFFD" ∧
      cut.client.published.filterMap Event.output? = ["\uFFFD", "\uFFFD"] := by
  decide +kernel

/-- **No console that only appends shows the text of all output so far,** after every part. -/
theorem exists_ne_decodeLossy_of_appends {shown : List (List UInt8) → String}
    (happends : ∀ parts part, ∃ text, shown (parts ++ [part]) = shown parts ++ text) :
    ∃ parts, shown parts ≠ decodeLossy parts.flatten := by
  by_contra hall
  have hshown (parts : List (List UInt8)) : shown parts = decodeLossy parts.flatten :=
    not_not.1 (not_exists.1 hall parts)
  -- the first byte of a character is replaced, unless the other one has come
  obtain ⟨text, htext⟩ := happends [[0xC3]] [0xA9]
  have hfirst : (decodeLossy [0xC3]).toList = [Text.replacement] := by decide +kernel
  have hboth : (decodeLossy [0xC3, 0xA9]).toList = ['é'] := by decide +kernel
  have hchars : (decodeLossy [0xC3, 0xA9]).toList = (decodeLossy [0xC3]).toList ++ text.toList := by
    rw [← String.toList_append]
    exact congrArg String.toList
      (((hshown _).symm.trans htext).trans (congrArg (· ++ text) (hshown _)))
  rw [hfirst, hboth] at hchars
  cases hchars

end Client

end VmProbe
