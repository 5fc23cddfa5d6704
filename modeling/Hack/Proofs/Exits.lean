import Hack.CommandLine
import Hack.Proofs.Buffering
import Hack.Proofs.Log
import Hack.Proofs.Messages

/-!
# How the program ends

The command line adds an exit code and two printed texts to what assembling a file does. The log
stands before the message of an error, and it is there as well if there is no error.

* `CommandLine.Environment.Prints` — the log, line by line
* `CommandLine.Ends` — the three ways in which the program ends
* `CommandLine.ends_respond` — it ends in one of them, whatever its arguments and files are
* `CommandLine.respond_of_undecoded` — unless an argument has no text
* `CommandLine.respond_agrees` — files, buffers and exits together
-/

namespace Hack

namespace CommandLine

variable {environment : Environment} {readFile : String → Except StreamError ByteArray}
  {content : Except StreamError ByteArray}

/-! ## The log -/

namespace Environment

/-- Whether an event belongs in the log: because it is asked for, or because it is a warning where
nothing is. -/
def Shows (environment : Environment) (event : Event) : Prop :=
  match environment.filter? with
  | some passes => passes event = true
  | none => ∃ message, event.Says .warn message

/-- The log of some events in order, behind a number of other lines. -/
inductive Prints (environment : Environment) : Nat → List Event → String → Prop
  | nil (place : Nat) : Prints environment place [] ""
  | hidden {place : Nat} {event : Event} {events : List Event} {log : String}
      (h : ¬ environment.Shows event) (hrest : Prints environment place events log) :
      Prints environment place (event :: events) log
  | shown {place : Nat} {event : Event} {events : List Event} {log : String}
      (h : environment.Shows event) (hrest : Prints environment (place + 1) events log) :
      Prints environment place (event :: events) (environment.logLine place event ++ log)

theorem shows_iff {event : Event} : environment.shows event = true ↔ environment.Shows event := by
  unfold shows Shows
  cases environment.filter? with
  | some passes => exact Iff.rfl
  | none =>
    rw [decide_eq_true_eq]
    exact ⟨fun h => ⟨event.message, h ▸ event.says_message⟩, fun ⟨_, h⟩ => h.level_eq⟩

theorem prints_zipIdx (environment : Environment) (place : Nat) (events : List Event) :
    environment.Prints place events
      (String.join (((events.filter environment.shows).zipIdx place).map fun (event, place) =>
        environment.logLine place event)) := by
  induction events generalizing place with
  | nil => exact .nil place
  | cons event events ih =>
    by_cases h : environment.shows event = true
    · rw [List.filter_cons_of_pos h, List.zipIdx_cons, List.map_cons, String.join_cons]
      exact .shown (shows_iff.mp h) (ih (place + 1))
    · rw [List.filter_cons_of_neg h]
      exact .hidden (fun hshows => h (shows_iff.mpr hshows)) (ih place)

/-- The log has the line of every event that belongs in it, in order. -/
theorem prints_logText (environment : Environment) (events : List Event) :
    environment.Prints 0 events (environment.logText events) :=
  prints_zipIdx environment 0 events

end Environment

/-! ## Files -/

/-- What is reported of a file: what its text gives rise to, and nothing without a text. -/
inductive Reports : Except StreamError ByteArray → List Event → Prop
  | decoded (source : String) : Reports (.ok source.toUTF8) (trace source).2.toList
  | undecoded {bytes : ByteArray} (h : ∀ text : String, text.toUTF8 ≠ bytes) :
      Reports (.ok bytes) []
  | unread (error : StreamError) : Reports (.error error) []

theorem fileEvents_toUTF8 (source : String) :
    fileEvents (.ok source.toUTF8) = (trace source).2.toList := by
  have hdecode : (Except.ok source.toUTF8).bind decodeText = .ok source := decodeText_toUTF8 source
  rw [fileEvents, hdecode]

theorem reports_fileEvents (content : Except StreamError ByteArray) :
    Reports content (fileEvents content) := by
  cases content with
  | error error => exact .unread error
  | ok bytes =>
    by_cases h : ∀ text : String, text.toUTF8 ≠ bytes
    · have hdecode : (Except.ok bytes).bind decodeText = .error .invalidText :=
        decodeText_eq_error_iff.mpr h
      rw [fileEvents, hdecode]
      exact .undecoded h
    · push Not at h
      obtain ⟨source, rfl⟩ := h
      rw [fileEvents_toUTF8]
      exact .decoded source

/-! ## Exits -/

/-- How the program ends for some arguments: with its usage, with the message of an error or with a
listing; behind the log if there was anything to report. -/
inductive Ends (environment : Environment) (readFile : String → Except StreamError ByteArray) :
    List String → Exit → Prop
  | usage {arguments : List String} (hcount : arguments.length ≠ 1) :
      Ends environment readFile arguments ⟨1, .empty, "Usage: assemble [source]\n"⟩
  | failed {file log text : String} {error : AssembleError} {sink : Sink} {events : List Event}
      (hfile : assembleFileTo (readFile file) .unlimited = .error error sink)
      (hevents : Reports (readFile file) events) (hlog : environment.Prints 0 events log)
      (htext : error.Says text) :
      Ends environment readFile [file] ⟨1, .empty, log ++ ("Error: " ++ text ++ "\n")⟩
  | listed {file source log : String} {words : List Word}
      (hfile : readFile file = .ok source.toUTF8) (hwords : assemble source = .ok words)
      (hlog : environment.Prints 0 (trace source).2.toList log) :
      Ends environment readFile [file] ⟨0, (listing words).toUTF8, log⟩

theorem exitOf_of_error {error : AssembleError} {sink : Sink}
    (h : assembleFileTo content .unlimited = .error error sink) :
    exitOf environment content = ⟨1, sink.received,
      environment.logText (fileEvents content) ++ ("Error: " ++ error.message ++ "\n")⟩ := by
  rw [exitOf, h]
  rfl

theorem exitOf_toUTF8 {source : String} {words : List Word} (h : assemble source = .ok words) :
    exitOf environment (.ok source.toUTF8)
      = ⟨0, (listing words).toUTF8, environment.logText (trace source).2.toList⟩ := by
  rw [exitOf, assembleFileTo_unlimited h, fileEvents_toUTF8]

/-- The exit of a program whose instructions all have words, read off its lines. -/
theorem exitOf_of_lines {source : String} {lines : List Line} {words : List Word}
    (hread : readLines source = .ok lines) (hlt : (instructions lines).length < UInt32.size)
    (hwords : Program.denotation lines = .ok words) :
    exitOf environment (.ok source.toUTF8)
      = ⟨0, (listing words).toUTF8, environment.logText (Program.report lines)⟩ := by
  rw [exitOf_toUTF8 ((assemble_eq_denoted hread hlt).trans hwords), log_trace_of_lines hread hlt]

theorem ends_exitOf (environment : Environment)
    (readFile : String → Except StreamError ByteArray) (file : String) :
    Ends environment readFile [file] (exitOf environment (readFile file)) := by
  have hevents := reports_fileEvents (readFile file)
  have hlog := environment.prints_logText (fileEvents (readFile file))
  cases hdecode : (readFile file).bind decodeText with
  | error error =>
    have hfile := assembleFileTo_of_error hdecode .unlimited
    rw [exitOf_of_error hfile]
    exact .failed hfile hevents hlog (AssembleError.says_message _)
  | ok source =>
    have hread := content_of_decoded hdecode
    cases hassemble : assemble source with
    | error error =>
      have hfile := assembleFileTo_of_unassembled hassemble .unlimited
      rw [← hread] at hfile
      rw [exitOf_of_error hfile]
      exact .failed hfile hevents hlog error.says_message
    | ok words =>
      rw [hread, exitOf_toUTF8 hassemble]
      exact .listed hread hassemble (environment.prints_logText _)

/-! ## Arguments -/

theorem decodeArgument_toUTF8 (argument : String) :
    decodeArgument argument.toUTF8 = .ok argument := by
  rw [decodeArgument, decodeText_toUTF8]
  rfl

theorem decodeArgument_of_undecoded {bytes : ByteArray} (h : ∀ text : String, text.toUTF8 ≠ bytes) :
    decodeArgument bytes = .error bytes := by
  rw [decodeArgument, decodeText_eq_error_iff.mpr h]
  rfl

theorem mapM_decodeArgument (arguments : List String) :
    (arguments.map String.toUTF8).mapM decodeArgument = .ok arguments :=
  mapM_eq_ok_iff.mpr (List.forall₂_map_left_iff.mpr (List.forall₂_same.mpr fun argument _ =>
    decodeArgument_toUTF8 argument))

theorem respond_file (environment : Environment)
    (readFile : String → Except StreamError ByteArray) (file : String) :
    Id.run (respond environment readFile ([file].map String.toUTF8))
      = exitOf environment (readFile file) := by
  rw [respond, mapM_decodeArgument]
  rfl

theorem ends_respond (environment : Environment)
    (readFile : String → Except StreamError ByteArray) (arguments : List String) :
    Ends environment readFile arguments
      (Id.run (respond environment readFile (arguments.map String.toUTF8))) := by
  match arguments with
  | [] => exact .usage (by decide)
  | [file] =>
    rw [respond_file]
    exact ends_exitOf environment readFile file
  | first :: second :: rest =>
    rw [respond, mapM_decodeArgument]
    exact .usage (by simp)

/-- An argument that is not UTF-8 ends the program before a file is read, wherever it stands. -/
theorem respond_of_undecoded {arguments : List ByteArray} {bytes : ByteArray}
    (hmem : bytes ∈ arguments) (hbytes : ∀ text : String, text.toUTF8 ≠ bytes) :
    ∃ first ∈ arguments, (∀ text : String, text.toUTF8 ≠ first)
      ∧ Id.run (respond environment readFile arguments)
          = ⟨101, .empty, environment.abortText first⟩ := by
  cases hdecode : arguments.mapM decodeArgument with
  | ok texts =>
    obtain ⟨text, htext⟩ := exists_mapM_eq_ok_iff.mp ⟨texts, hdecode⟩ bytes hmem
    rw [decodeArgument_of_undecoded hbytes] at htext
    cases htext
  | error first =>
    obtain ⟨before, argument, after, harguments, -, hargument⟩ := mapM_eq_error_iff.mp hdecode
    have hundecoded : ∀ text : String, text.toUTF8 ≠ argument := by
      rintro text rfl
      rw [decodeArgument_toUTF8] at hargument
      cases hargument
    rw [decodeArgument_of_undecoded hundecoded] at hargument
    cases hargument
    refine ⟨first, by simp [harguments], hundecoded, ?_⟩
    rw [respond, hdecode]
    rfl

theorem Ends.code_eq_zero_iff {arguments : List String} {exit : Exit}
    (h : Ends environment readFile arguments exit) :
    exit.code = 0 ↔ ∃ file count sink, arguments = [file]
      ∧ assembleFileTo (readFile file) .unlimited = .ok count sink := by
  have hfailure : (1 : UInt32) ≠ 0 := by decide
  cases h with
  | usage hcount =>
    refine iff_of_false hfailure ?_
    rintro ⟨file, count, sink, rfl, -⟩
    exact hcount rfl
  | failed hfailed =>
    refine iff_of_false hfailure ?_
    rintro ⟨file, count, sink, hsame, hfile⟩
    cases hsame
    rw [hfailed] at hfile
    cases hfile
  | @listed file source log words hread hwords =>
    have hfile := assembleFileTo_unlimited hwords
    rw [← hread] at hfile
    exact iff_of_true rfl ⟨file, _, _, rfl, hfile⟩

/-- A file that is not UTF-8 is refused before anything is written. Any other file is assembled
through a buffer with the same result and the same bytes as its text is without one, a byte order
mark included. The program fails exactly if it does not have one argument or that file is not
assembled, prints either a listing or what is wrong, and logs what it is asked to log. -/
theorem respond_agrees :
    (∀ bytes room, (∀ text : String, text.toUTF8 ≠ bytes) →
        ∃ error, assembleFileTo (.ok bytes) (.limited room)
            = .error (.stream error) ⟨some room, .empty⟩
          ∧ error.kind = .invalidData)
      ∧ (∀ (source : String) room,
          EndsAlike (assembleTo source (Sink.limited room))
            (assembleFileTo (.ok source.toUTF8) (.limited room)))
      ∧ ∀ environment readFile (arguments : List String),
          Ends environment readFile arguments
              (Id.run (respond environment readFile (arguments.map String.toUTF8)))
            ∧ ((Id.run (respond environment readFile (arguments.map String.toUTF8))).code = 0
                ↔ ∃ file count sink, arguments = [file]
                  ∧ assembleFileTo (readFile file) .unlimited = .ok count sink) := by
  refine ⟨fun bytes room h => ?_, fun source room => ?_, fun environment readFile arguments => ?_⟩
  · exact ⟨.invalidText, assembleFileTo_of_invalid h (.limited room), rfl⟩
  · exact endsAlike_assembleFileTo source (.limited room)
  · have hends := ends_respond environment readFile arguments
    exact ⟨hends, hends.code_eq_zero_iff⟩

/-- An environment that asks for nothing, where the line of an event is its message. -/
def unfiltered : Environment := ⟨none, fun _ event => event.message ++ "\n", fun _ => ""⟩

theorem respond_agrees_reported :
    (∀ text : String, text.toUTF8 ≠ ⟨#[0x40, 0xFF]⟩)
      ∧ (∃ error, assembleFileTo (.ok ⟨#[0x40, 0xFF]⟩) (.limited 9)
            = .error (.stream error) ⟨some 9, .empty⟩
          ∧ error.kind = .invalidData)
      ∧ EndsAlike (assembleTo threeLines (Sink.limited 20))
          (assembleFileTo (.ok threeLines.toUTF8) (.limited 20))
      ∧ (Id.run (respond unfiltered (fun _ => .ok reported.toUTF8)
          (["a.asm"].map String.toUTF8))).code = 0
      ∧ Ends unfiltered (fun _ => .ok reported.toUTF8) ["a.asm"]
          ⟨0, (listing [16, 1, 16]).toUTF8,
            "label shadowed by predefined symbol\nlabel redefined\n"⟩
      ∧ Ends unfiltered (fun _ => .ok ⟨#[0x40, 0xFF]⟩) ["a.asm"]
          ⟨1, .empty, "Error: stream did not contain valid UTF-8\n"⟩ := by
  have hinvalid : ∀ text : String, text.toUTF8 ≠ ⟨#[0x40, 0xFF]⟩ :=
    decodeText_eq_error_iff.mp (by decide)
  have hread : readLines reported = .ok reportedLines := by decide
  have hlt : (instructions reportedLines).length < UInt32.size := by decide
  have hwords : Program.denotation reportedLines = .ok [16, 1, 16] := by decide
  have hfile := assembleFileTo_unlimited ((assemble_eq_denoted hread hlt).trans hwords)
  have hlog : unfiltered.logText (Program.report reportedLines)
      = "label shadowed by predefined symbol\nlabel redefined\n" := by decide
  obtain ⟨hrefused, halike, hexit⟩ := respond_agrees
  have hlisted := (hexit unfiltered (fun _ => .ok reported.toUTF8) ["a.asm"]).1
  have hfailed := (hexit unfiltered (fun _ => .ok ⟨#[0x40, 0xFF]⟩) ["a.asm"]).1
  rw [respond_file, exitOf_of_lines hread hlt hwords, hlog] at hlisted
  rw [respond_file, exitOf_of_error (assembleFileTo_of_invalid hinvalid .unlimited)] at hfailed
  exact ⟨hinvalid, hrefused _ 9 hinvalid, halike threeLines 20,
    (hexit unfiltered (fun _ => .ok reported.toUTF8) ["a.asm"]).2.mpr ⟨"a.asm", _, _, rfl, hfile⟩,
    hlisted, hfailed⟩

/-- A program that declares a predefined name, and nothing else. -/
def shadowedLabel : String := "(SP)\n"

/-- A program can be assembled and be worth a warning. -/
theorem respond_success_not_silent :
    (Id.run (respond unfiltered (fun _ => .ok shadowedLabel.toUTF8)
        (["a.asm"].map String.toUTF8))).code = 0
      ∧ (Id.run (respond unfiltered (fun _ => .ok shadowedLabel.toUTF8)
          (["a.asm"].map String.toUTF8))).stderr = "label shadowed by predefined symbol\n"
      ∧ (Id.run (respond unfiltered (fun _ => .ok shadowedLabel.toUTF8)
          (["a.asm"].map String.toUTF8))).stderr ≠ "" := by
  have hread : readLines shadowedLabel = .ok [⟨1, .label "SP"⟩] := by decide
  have hwords : Program.denotation [⟨1, .label "SP"⟩] = .ok [] := by decide
  have hlog : unfiltered.logText (Program.report [⟨1, .label "SP"⟩])
      = "label shadowed by predefined symbol\n" := by decide
  rw [respond_file, exitOf_of_lines hread (by decide) hwords, hlog]
  exact ⟨rfl, rfl, by decide⟩

end CommandLine

end Hack
