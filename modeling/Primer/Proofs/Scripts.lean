import Primer.CommandLine
import Primer.Proofs.Semantics.Balance
import Primer.Proofs.Semantics.Worlds
import Primer.Proofs.Text.Encoding

/-!
# Scripts on the command line

A script reads bytes from a stream, a line at a time, and writes text.  A run in
memory has its lines cut beforehand and keeps the values that it prints.  The
two answer alike as long as the bytes left on the stream encode a text whose
lines are the lines left in memory: the next line is the same on both sides, and
what follows it on the stream encodes the rest of the text.

## Main results

* `CommandLine.execute_script` : a script does what its run in memory does.
-/

namespace Primer

/-! ## The stream and the queue -/

/-- The terminal shows what the console has printed, and holds the bytes of a text
of which the console holds the lines. -/
structure Console.AgreesWith (console : Console) (terminal : Terminal) : Prop where
  input : ∃ text : List Char, console.input = (Lines.ofText (String.ofList text)).map .text ∧
    terminal.stdin = Lines.encode text
  stdout : terminal.stdout = console.text

theorem Console.text_print (console : Console) (value : Value) :
    (console.print value).text = console.text ++ value.text := by
  simp [text, print, screen]

/-- The first line of a text is what comes before its first line break. -/
theorem Lines.ofText_of_ne_nil {text : List Char} (hne : text ≠ []) :
    ofText (String.ofList text) =
      String.ofList (dropTerminator '\r' '\n' (splitAfter '\n' text).1) ::
        ofText (String.ofList (splitAfter '\n' text).2) := by
  simp only [ofText, String.toList_ofList, cutAfter_eq_splitAfter hne, List.map_cons]

namespace Terminal

theorem read?_of_nil {terminal : Terminal} (hstdin : terminal.stdin = []) :
    terminal.read? = (none, terminal) := by
  rw [read?, hstdin]

theorem read?_of_ne_nil {terminal : Terminal} (hstdin : terminal.stdin ≠ []) :
    terminal.read? =
      (some (Lines.decodeTerminated (Lines.splitAfter Lines.lineFeed terminal.stdin).1),
        { terminal with stdin := (Lines.splitAfter Lines.lineFeed terminal.stdin).2 }) := by
  obtain ⟨byte, bytes, hcons⟩ := List.exists_cons_of_ne_nil hstdin
  rw [read?, hcons]

end Terminal

/-- An attempt to read gets the same line on both sides, or none on both. -/
theorem Console.AgreesWith.read? {console : Console} {terminal : Terminal}
    (hagrees : console.AgreesWith terminal) :
    console.read?.1 = terminal.read?.1 ∧ console.read?.2.AgreesWith terminal.read?.2 := by
  obtain ⟨⟨text, hinput, hstdin⟩, hstdout⟩ := hagrees
  cases text with
  | nil =>
      have hnone : console.input = [] := hinput
      rw [Terminal.read?_of_nil hstdin, Console.read?, hnone]
      exact ⟨rfl, ⟨[], rfl, hstdin⟩, hstdout⟩
  | cons c text =>
      have hne : terminal.stdin ≠ [] := by
        rw [hstdin, Lines.encode_cons]
        exact List.append_ne_nil_of_left_ne_nil (Lines.utf8EncodeChar_ne_nil c) _
      rw [Lines.ofText_of_ne_nil (List.cons_ne_nil c text), List.map_cons] at hinput
      rw [Terminal.read?_of_ne_nil hne, hstdin, Lines.splitAfter_encode,
        Lines.decodeTerminated_encode, Console.read?, hinput]
      exact ⟨rfl, ⟨_, rfl, rfl⟩, hstdout⟩

theorem Console.simulates_agreesWith : InputOutput.Simulates Console.AgreesWith where
  print {console terminal} hagrees value := by
    refine ⟨hagrees.input, ?_⟩
    rw [inputOutput_print, text_print, ← hagrees.stdout]
    rfl
  line_eq hagrees := hagrees.read?.1
  read hagrees := hagrees.read?.2

/-! ## Runs -/

/-- A text runs alike on a stream and in memory. -/
theorem runIn_matches {V W : Type} [InputOutput V] [InputOutput W] {related : V → W → Prop}
    (hsimulates : InputOutput.Simulates related) (source : String) :
    Exec.Matches related (runIn source) (runIn source) := by
  intro context context' halike
  rw [runIn, runIn]
  cases compile source with
  | ok node => exact Exec.matches_execute hsimulates node context context' halike
  | error failure => exact .error failure halike

namespace CommandLine

/-- On the bytes of a text, a program does what it does in memory on its lines. -/
theorem run_matches (source stdin : String) :
    Exec.ResultsMatch Console.AgreesWith (run source ((Lines.ofText stdin).map .text))
      (runIn source (.fresh (.ofBytes stdin.toUTF8))) := by
  refine runIn_matches Console.simulates_agreesWith source _ _ ⟨Scopes.Same.refl _, ?_, rfl⟩
  refine ⟨stdin.toList, ?_, Lines.toUTF8_data stdin⟩
  rw [String.ofList_toList]
  rfl

theorem execute_eq_runSource {path source : String} {bytes? : String → Option ByteArray}
    (hpath : path ≠ "-i" ∧ path ≠ "--interactive") (hfile : bytes? path = some source.toUTF8)
    (stdin : ByteArray) : execute [path] bytes? stdin = runSource source stdin := by
  have hinvocation : Invocation.ofArguments [path] = .script path := by
    rw [Invocation.ofArguments, if_neg (not_or.mpr hpath)]
  rw [execute, hinvocation]
  simp only [runScript, hfile, fromUTF8?_toUTF8]

/-- A script in a file, with a text as its standard input, does what its run in
memory does on the lines of the text: the values printed are written to standard
output, an error is reported on standard error, and the status tells which. -/
theorem execute_script {path source stdin : String} {bytes? : String → Option ByteArray}
    (hpath : path ≠ "-i" ∧ path ≠ "--interactive") (hfile : bytes? path = some source.toUTF8) :
    match run source ((Lines.ofText stdin).map .text) with
    | .ok () context => execute [path] bytes? stdin.toUTF8 = ⟨0, context.console.text, ""⟩
    | .error (.error error) context =>
        execute [path] bytes? stdin.toUTF8 = ⟨1, context.console.text, error.message ++ "\n"⟩
    | .error _ _ => False := by
  have hmatch := run_matches source stdin
  have hwf : (Context.ofLines ((Lines.ofText stdin).map .text)).scopes.WellFormed :=
    Scopes.wellFormed_initial
  rw [execute_eq_runSource hpath hfile, runSource]
  -- the run on lines and the run on bytes are compared once; each way to end is then read off
  generalize hrun : run source _ = result,
    runIn source (.fresh (Terminal.ofBytes stdin.toUTF8)) = result' at hmatch ⊢
  cases hmatch with
  | ok _ hafter => simp only [hafter.console.stdout]
  | error failure hafter =>
      obtain ⟨error, rfl⟩ := (Exec.balanced_runIn source).fault hwf hrun
      simp only [hafter.console.stdout]

/-- A carriage return that does not stand before the line feed is read.  The second
attempt to read finds nothing. -/
theorem execute_script_exhausted :
    let source := "var s:string;read s;print s;read s;"
    let bytes? : String → Option ByteArray := fun path =>
      if path = "main.txt" then some source.toUTF8 else none
    ("main.txt" ≠ "-i" ∧ "main.txt" ≠ "--interactive") ∧
      bytes? "main.txt" = some source.toUTF8 ∧
      execute ["main.txt"] bytes? "\ra\r\n".toUTF8 =
        ⟨1, "\ra", "No more input available for read on line 1\n"⟩ := by
  intro source bytes?
  have hpath : "main.txt" ≠ "-i" ∧ "main.txt" ≠ "--interactive" := by decide
  have hfile : bytes? "main.txt" = some source.toUTF8 := if_pos rfl
  let program : Program := .next (.declaration 1 "s" 1 1 .string 1 none) 1
    (.next (.reading 1 "s" 1) 1 (.next (.printing 1 (.single (.name "s" 1))) 1
      (.next (.reading 1 "s" 1) 1 .done)))
  have htokens : tokenize source = .ok (program.tokens ++ [⟨.endMarker, 1⟩]) := by cbv
  have hlines : Lines.ofText "\ra\r\n" = ["\ra"] := by cbv
  have hrun : run source [.text "\ra"] = .error (.error (.inputExhausted 1))
      ⟨[[("s", ⟨"s", 1, .string, some (.string "\ra")⟩)]], ⟨[], #[.string "\ra"], 2⟩⟩ :=
    (runIn_eq_run htokens Scopes.wellFormed_initial).trans (by cbv)
  have hscript := @execute_script "main.txt" source "\ra\r\n" bytes? hpath hfile
  rw [hlines, List.map_cons, List.map_nil, hrun] at hscript
  exact ⟨hpath, hfile, hscript.trans rfl⟩

end CommandLine

end Primer
