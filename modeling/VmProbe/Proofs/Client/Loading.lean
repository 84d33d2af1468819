/-
VmProbe/Proofs/Client/Loading.lean

The image that is run.

Only a load changes which image is loaded, and one that fails does not (`loaded_operate`).  An image
keeps the bytes that it was read from.  So after any turns the bytes of the loaded image are those
of the last load that succeeded, whatever else was asked for in between and whatever came back:

    loaded_play    s.play turns has the last of s.goodLoads turns loaded, or what s had

Main statement: that is what running the loaded image sends, in one frame and byte for byte, and
nothing is sent if no load has succeeded (`runLoaded_sends_last_load`).
-/
import VmProbe.Image.Draft
import VmProbe.Proofs.Client.Failing
import VmProbe.Proofs.Client.Phases
import VmProbe.Proofs.Client.Sending
import VmProbe.Proofs.Image.Format

namespace VmProbe

open Client
open Wire (Opcode Reply Request)

/-! ### Loads -/

/-- The image that an operation loads, if it can be read. -/
def Operation.image? : Operation → Option Loaded
  | .loadImage bytes => (Loaded.ofBytes bytes).toOption
  | _ => none

namespace Client

variable {bytes : List UInt8} {l : Loaded}

/-- A loaded image keeps the bytes that it was read from. -/
theorem Loaded.bytes_of_ofBytes (h : Loaded.ofBytes bytes = .ok l) : l.image.bytes = bytes :=
  (Image.describes_of_parse (Loaded.ofBytes_eq_ok_iff.1 h).1).source

/-- A load succeeds if and only if the image can be read. -/
theorem loadImage_fst (c : Client) (bytes : List UInt8) :
    (c.loadImage bytes).1 = (Loaded.ofBytes bytes).map fun _ => () := by
  rw [loadImage]
  rcases Loaded.ofBytes bytes with e | l
  · cases e <;> rfl
  · rfl

theorem loaded_loadImage (c : Client) (bytes : List UInt8) :
    (c.loadImage bytes).2.loaded = (Operation.loadImage bytes).image?.or c.loaded := by
  rw [loadImage, Operation.image?]
  rcases Loaded.ofBytes bytes with e | l
  · have htakes : c.Takes [] (reported ((.error e, c) : Client.Result Unit)).2 :=
      takes_reported (.refl c)
    exact htakes.loaded
  · exact (moves_load c l).loaded

/-- Sending a request hands over its frame, if it has one. -/
theorem sent_send {α : Type} (c : Client) (r : Request) (next : List UInt8 → Client.Result α)
    (link : Link) :
    ((c.send r next).over link).2.sent =
      link.sent ++ r.encode.toOption.toList.map (Sent.mk link.now) := by
  rw [send]
  rcases r.encode with e | frame
  · exact (List.append_nil _).symm
  · have hexchange : (link.exchange frame).2.sent = link.sent ++ [Sent.mk link.now frame] := by
      rw [Link.exchange]
      rcases link.script with - | ⟨x, script⟩ <;> rfl
    dsimp only [Dialogue.over]
    rcases hx : link.exchange frame with ⟨x, link'⟩
    rw [hx] at hexchange
    cases x with
    | reply bytes => exact hexchange
    | failure e => exact hexchange
    | interrupted => exact hexchange

/-- What a request returns depends on what comes back for its frame, and on nothing else. -/
theorem fst_request_congr {link link' : Link} (r : Request) (c c' : Client)
    (hscript : link.script = link'.script) (hafter : link.afterwards = link'.afterwards) :
    ((c.request r).over link).1.1 = ((c'.request r).over link').1.1 := by
  have hexchange (frame : List UInt8) : (link.exchange frame).1 = (link'.exchange frame).1 := by
    rw [Link.exchange, Link.exchange, hscript, hafter]
    rcases link'.script with - | ⟨x, script⟩ <;> rfl
  have hreported (x : Client.Result Opcode) :
      (reported (acknowledged x)).1 = x.1.map fun _ => () := by
    obtain ⟨e | o, c⟩ := x
    · cases e <;> rfl
    · rfl
  rw [request, request, Dialogue.over_map, Dialogue.over_map, hreported, hreported, attempt,
    attempt, send, send]
  rcases r.encode with e | frame
  · rfl
  · dsimp only [Dialogue.over]
    rw [hexchange]
    cases (link'.exchange frame).1 with
    | reply bytes =>
      dsimp only [Dialogue.over]
      rw [accept, accept]
      cases Reply.parse bytes <;> rfl
    | failure e => rfl
    | interrupted => rfl

end Client

namespace Session

/-- The session as it is at the beginning of a turn. -/
def ready (s : Session) (t : Turn) : Session :=
  { s with
    link := { s.link with script := t.script, afterwards := t.afterwards }
    cancelAt := t.cancelAt }

/-- What the operation of a turn returns, apart from a value. -/
def returns (s : Session) (t : Turn) : Except Client.Error Unit := (s.ready t).result t.operation

/-- The bytes that a turn loads, if it is a load and returns without an error. -/
def goodLoad? (s : Session) (t : Turn) : Option (List UInt8) :=
  match t.operation, s.returns t with
  | .loadImage bytes, .ok () => some bytes
  | _, _ => none

/-- The bytes of all loads that returned without an error, the first one first. -/
def goodLoads (s : Session) : List Turn → List (List UInt8)
  | [] => []
  | t :: turns => (s.goodLoad? t).toList ++ (s.turn t).goodLoads turns

variable {s s' : Session} {t : Turn} {turns : List Turn}

theorem turn_eq (s : Session) (t : Turn) : s.turn t = (s.ready t).operate t.operation := rfl

/-! ### Operations and turns -/

/-- **Only a load that succeeds changes the image.** -/
theorem loaded_operate (s : Session) (o : Operation) :
    (s.operate o).client.loaded = o.image?.or s.client.loaded := by
  have hother (h : ∀ bytes, o ≠ .loadImage bytes) :
      (s.operate o).client.loaded = s.client.loaded := by
    refine (reaches_operate s o).keeps (f := Client.loaded) fun c t ht => ?_
    rw [loaded_apply]
    cases t with
    | load l =>
      obtain ⟨bytes, ho, -⟩ := ht
      exact absurd ho (h bytes)
    | _ => rfl
  cases o with
  | loadImage bytes => exact loaded_loadImage s.client bytes
  | _ => exact hother (by rintro bytes ⟨⟩)

/-- What a turn loads are the bytes of the image that can be read from them. -/
theorem goodLoad?_eq (s : Session) (t : Turn) :
    s.goodLoad? t = t.operation.image?.map (·.image.bytes) := by
  rw [goodLoad?, returns]
  rcases t.operation with bytes | _
  case loadImage =>
    have hresult : (s.ready t).result (.loadImage bytes) = (Loaded.ofBytes bytes).map fun _ => () :=
      loadImage_fst _ bytes
    rw [hresult, Operation.image?]
    rcases hl : Loaded.ofBytes bytes with e | l
    · rfl
    · exact congrArg some (Loaded.bytes_of_ofBytes hl).symm
  all_goals rfl

theorem goodLoads_eq (s : Session) (turns : List Turn) :
    s.goodLoads turns = turns.filterMap fun t => t.operation.image?.map (·.image.bytes) := by
  induction turns generalizing s with
  | nil => rfl
  | cons t turns ih =>
    rw [goodLoads, ih, goodLoad?_eq, List.filterMap_cons]
    rcases t.operation.image? with - | l <;> rfl

/-- **After any turns the last good load is loaded.** -/
theorem loaded_play (s : Session) (turns : List Turn) :
    (s.play turns).client.loaded.map (·.image.bytes) =
      (s.goodLoads turns).getLast?.or (s.client.loaded.map (·.image.bytes)) := by
  induction turns generalizing s with
  | nil => rfl
  | cons t turns ih =>
    have hturn : (s.turn t).client.loaded = t.operation.image?.or s.client.loaded :=
      loaded_operate (s.ready t) t.operation
    show ((s.turn t).play turns).client.loaded.map _ = _
    rw [ih, hturn, goodLoads, goodLoad?_eq]
    rcases t.operation.image? with - | l
    · rfl
    · -- this load counts only if no later one succeeds
      rw [List.getLast?_append, Option.or_assoc]
      rfl

/-! ### Runs of the loaded image -/

/-- The frames for an image that is to be run: one, if its length fits into four bytes. -/
def runFrames (image : Option (List UInt8)) : List (List UInt8) :=
  image.toList.flatMap fun bytes => (Request.run bytes).encode.toOption.toList

theorem runFrames_some (bytes : List UInt8) :
    runFrames (some bytes) = (Request.run bytes).encode.toOption.toList :=
  List.flatMap_singleton _ _

/-- Running the loaded image hands over the frame for its bytes, now, and nothing else. -/
theorem sent_runLoaded (s : Session) (ht : t.operation = .runLoaded) :
    (s.turn t).link.sent = s.link.sent ++
      (runFrames (s.client.loaded.map (·.image.bytes))).map (Sent.mk s.link.now) := by
  rw [turn_eq, ht]
  show ((runLoaded s.client).over (s.ready t).link).2.sent = _
  rw [runLoaded]
  rcases s.client.loaded with - | l
  · exact (List.append_nil _).symm
  · show (((s.client.send _ _).map _).over _).2.sent = _
    rw [Dialogue.over_map, Option.map_some, runFrames_some]
    exact sent_send s.client (.run l.image.bytes) s.client.accept (s.ready t).link

/-- What it returns depends on the bytes of the image and on the server. -/
theorem returns_runLoaded_congr (ht : t.operation = .runLoaded)
    (h : s.client.loaded.map (·.image.bytes) = s'.client.loaded.map (·.image.bytes)) :
    s.returns t = s'.returns t := by
  have hresult (s : Session) : s.returns t = ((runLoaded s.client).over (s.ready t).link).1.1 := by
    rw [returns, ht]
    rfl
  rw [hresult, hresult, runLoaded, runLoaded]
  rcases hl : s.client.loaded with - | l <;> rcases hl' : s'.client.loaded with - | l' <;>
    rw [hl, hl'] at h
  · rfl
  · cases h
  · cases h
  · have hbytes : l.image.bytes = l'.image.bytes := Option.some.inj h
    dsimp only
    rw [hbytes]
    exact fst_request_congr _ s.client s'.client rfl rfl

/-- The frames that a turn hands over. -/
def handed (s : Session) (t : Turn) : List (List UInt8) :=
  ((s.turn t).link.sent.drop s.link.sent.length).map Sent.frame

/-- Running the loaded image hands over the frame for its bytes, if it has one. -/
theorem handed_runLoaded (s : Session) (ht : t.operation = .runLoaded) :
    s.handed t = runFrames (s.client.loaded.map (·.image.bytes)) := by
  have hframe (now : Nat) : Sent.frame ∘ Sent.mk now = id := rfl
  rw [handed, sent_runLoaded s ht, List.drop_left, List.map_map, hframe, List.map_id]

/-- **The image that is run is the one that was loaded last.**  After any turns of a new session,
running the loaded image hands over one frame, which is read as a request to run the bytes of
the last load that returned without an error.  If there was none, nothing is sent.  A load that
returned an error could as well not have been. -/
theorem runLoaded_sends_last_load (link : Link) (retryInterval : Nat) (turns : List Turn)
    (ht : t.operation = .runLoaded) :
    let start := new link retryInterval
    let s := start.play turns
    (∀ bytes, (start.goodLoads turns).getLast? = some bytes → bytes.length < 2 ^ 32 →
      ∃ frame, s.handed t = [frame] ∧ Request.parse frame = .ok (.run bytes)) ∧
    (start.goodLoads turns = [] → s.handed t = [] ∧ s.returns t = .error .noImageLoaded) ∧
    ∀ earlier u later bytes e, turns = earlier ++ u :: later →
      u.operation = .loadImage bytes → (start.play earlier).returns u = .error e →
      let s' := start.play (earlier ++ later)
      s.handed t = s'.handed t ∧ s.returns t = s'.returns t := by
  intro start s
  have hloaded (turns : List Turn) :
      (start.play turns).client.loaded.map (·.image.bytes) = (start.goodLoads turns).getLast? := by
    rw [loaded_play]
    exact Option.or_none
  refine ⟨fun bytes hlast hfits => ?last, fun hnone => ?none, ?failed⟩
  case last =>
    obtain ⟨frame, hframe⟩ : ∃ frame, (Request.run bytes).encode = .ok frame := by
      refine Request.exists_encode_iff.2 ?_
      rintro _ ⟨⟩
      exact hfits
    refine ⟨frame, ?_, Request.parse_eq_ok_iff.2 ⟨frame, hframe, List.prefix_rfl⟩⟩
    rw [handed_runLoaded _ ht, hloaded, hlast, runFrames_some, hframe]
    rfl
  case none =>
    have hnot : s.client.loaded.map (·.image.bytes) = none := by rw [hloaded, hnone]; rfl
    refine ⟨?_, ?_⟩
    · rw [handed_runLoaded _ ht, hnot]
      rfl
    · have hsame : s.returns t = start.returns t := returns_runLoaded_congr ht hnot
      rw [hsame, returns, ht]
      rfl
  case failed =>
    rintro earlier u later bytes e rfl hu herror s'
    -- the failed load is no good one, so the good loads are the same without it
    have hgood : (start.play earlier).goodLoad? u = none := by rw [goodLoad?, hu, herror]
    have himage : u.operation.image? = none := by
      rwa [goodLoad?_eq, Option.map_eq_none_iff] at hgood
    have hsame : start.goodLoads (earlier ++ u :: later) = start.goodLoads (earlier ++ later) := by
      simp only [goodLoads_eq, List.filterMap_append, List.filterMap_cons, himage, Option.map_none]
    have hbytes : s.client.loaded.map (·.image.bytes) = s'.client.loaded.map (·.image.bytes) := by
      rw [hloaded, hloaded, hsame]
    exact ⟨by rw [handed_runLoaded _ ht, handed_runLoaded _ ht, hbytes],
      returns_runLoaded_congr ht hbytes⟩

/-- A good image is loaded, then bytes that are none; the good image is run. -/
theorem runLoaded_sends_last_load_kept :
    let good := (Image.Draft.new.code [0x50]).bytes
    let act (o : Operation) : Turn := ⟨o, [], Link.silent.afterwards, none⟩
    let turns := [act (.loadImage good), act (.loadImage [0])]
    let start := new .silent 2000
    (start.goodLoads turns).getLast? = some good ∧ good.length < 2 ^ 32 ∧
      ∃ frame, (start.play turns).handed (act .runLoaded) = [frame] ∧
        Request.parse frame = .ok (.run good) := by
  intro good act turns start
  have hlast : (start.goodLoads turns).getLast? = some good := by decide +kernel
  have hlength : good.length < 2 ^ 32 := by decide +kernel
  exact ⟨hlast, hlength,
    (runLoaded_sends_last_load .silent 2000 turns (t := act .runLoaded) rfl).1 good hlast hlength⟩

end Session

end VmProbe
