import IpodEsp32.Snooper.Console
import IpodEsp32.Text.Format
import IpodEsp32.Transition.Parallel

/-!
# Reading the console

The console shows bytes: a record is the name of its snooper, the voltage as `%d` writes
it, the payload as it is, and the end of a line. A reader that takes the text apart at
line feeds finds the records again, unless a payload holds a line feed
(`readRecords_text`). As long as each `printf` is called alone, what it finds for one of
the two snoopers is what this snooper, run by itself, would have printed
(`console_readable`).

The text is that of the calls of `Serial`. In the build `frugal`, with `CORE_DEBUG_LEVEL`
0, there is nothing else on `UART0`. In the build `withESPLog`, with level 3, the lines of
`ESP_LOG` share the port and may stand inside a record: they are left out here, and the
results are about the port only as far as no such line is written.
-/

namespace IpodEsp32

namespace Snooper

open Text (ascii)

/-- The bytes that a call of `Serial` writes. The voltage is a 32-bit word. -/
def SerialCall.text : SerialCall → List UInt8
  | .printf snooperName milliVolts =>
      ascii snooperName.toList ++ ascii " \t ".toList ++
        Text.formatD (UInt32.ofNat milliVolts) ++ ascii " \t | ".toList
  | .write byteArray => byteArray
  | .println => [0x0D, 0x0A]

/-- The text that the calls of `Serial` write, without the lines of `ESP_LOG`. -/
def text (trace : Trace) : List UInt8 := trace.flatMap fun call => call.2.text

/-! ### A reader -/

/-- What is seen of a record: the snooper, the voltage and the payload. -/
abbrev Shown : Type := Uart × UInt32 × List UInt8

def readLineOf (u : Uart) (line : List UInt8) : Option Shown := do
  let rest ← line.dropPrefix? (ascii u.snooperName.toList ++ ascii " \t ".toList)
  let payload ← (Text.readD rest).2.dropPrefix? (ascii " \t | ".toList)
  if payload.getLast? = some 0x0D then some (u, (Text.readD rest).1, payload.dropLast)
  else none

def readLine (line : List UInt8) : Option Shown :=
  (readLineOf .uart1 line).or (readLineOf .uart2 line)

def readRecords (text : List UInt8) : List Shown :=
  (Text.lines 0x0A text).filterMap readLine

/-! ### What is written is read back -/

def shown (r : Sent) : Shown := (r.1, UInt32.ofNat r.2.1, r.2.2)

def line (r : Sent) : List UInt8 :=
  ascii r.1.snooperName.toList ++ ascii " \t ".toList ++
    (Text.formatD (UInt32.ofNat r.2.1) ++ (ascii " \t | ".toList ++ (r.2.2 ++ [0x0D])))

theorem text_records (sent : List Sent) :
    text (records sent) = (sent.map line).flatMap fun l => l ++ [0x0A] := by
  rw [text, records, List.flatMap_assoc, List.flatMap_map]
  congr 1
  funext r
  simp [record, line, SerialCall.text]

theorem readLineOf_line (r : Sent) : readLineOf r.1 (line r) = some (shown r) := by
  have hblank : ∀ b, (ascii " \t | ".toList ++ (r.2.2 ++ [0x0D])).head? = some b →
      Text.isDigit b = false := by
    rintro b ⟨⟩
    decide
  rw [readLineOf, line, List.dropPrefix?_append_of_beq _ (beq_self_eq_true _),
    Option.bind_eq_bind, Option.bind_some, Text.readD_formatD _ hblank,
    List.dropPrefix?_append_of_beq _ (beq_self_eq_true _), Option.bind_some,
    List.getLast?_concat, if_pos rfl, List.dropLast_concat]
  rfl

theorem readLine_line (r : Sent) : readLine (line r) = some (shown r) := by
  have hself := readLineOf_line r
  obtain ⟨u, milliVolts, byteArray⟩ := r
  cases u with
  | uart1 => rw [readLine, hself, Option.some_or]
  | uart2 =>
      -- the names differ in their last character
      have hother : readLineOf .uart1 (line (.uart2, milliVolts, byteArray)) = none := by
        simp [readLineOf, line, ascii, Uart.snooperName, List.dropPrefix?]
      rw [readLine, hother, Option.none_or, hself]

theorem not_mem_formatD (w : UInt32) : (0x0A : UInt8) ∉ Text.formatD w := by
  have hdecimal : ∀ n, (0x0A : UInt8) ∉ Text.decimal n := fun n h =>
    absurd (Text.isDigit_of_mem_decimal h) (by decide)
  rw [Text.formatD]
  split
  · exact hdecimal _
  · rw [List.mem_cons, not_or]
    exact ⟨by decide, hdecimal _⟩

theorem not_mem_line {r : Sent} (h : (0x0A : UInt8) ∉ r.2.2) : (0x0A : UInt8) ∉ line r := by
  have hname : ∀ u : Uart, (0x0A : UInt8) ∉ ascii u.snooperName.toList := by
    intro u
    cases u <;> decide
  have hfirst : (0x0A : UInt8) ∉ ascii " \t ".toList := by decide
  have hsecond : (0x0A : UInt8) ∉ ascii " \t | ".toList := by decide
  simp only [line, List.mem_append, List.mem_singleton, not_or]
  exact ⟨⟨hname r.1, hfirst⟩, not_mem_formatD _, hsecond, h, by decide⟩

/-- Records whose payloads hold no line feed are read back as they were sent. -/
theorem readRecords_text {sent : List Sent} (h : ∀ r ∈ sent, (0x0A : UInt8) ∉ r.2.2) :
    readRecords (text (records sent)) = sent.map shown := by
  have hlines : ∀ l ∈ sent.map line, (0x0A : UInt8) ∉ l := by
    intro l hl
    obtain ⟨r, hr, rfl⟩ := List.mem_map.1 hl
    exact not_mem_line (h r hr)
  rw [readRecords, text_records, Text.lines_flatMap hlines, List.filterMap_map]
  have hread : readLine ∘ line = some ∘ shown := funext readLine_line
  rw [hread, List.filterMap_eq_map]

/-- A payload can hold the end of one record and the beginning of the next: one record
may look like two. -/
example :
    text (records [(.uart1, 3300, [0x07, 0x0D, 0x0A] ++
      (SerialCall.printf "UART2" 0).text ++ [0x09])]) =
      text (records [(.uart1, 3300, [0x07]), (.uart2, 0, [0x09])]) := by
  decide

/-! ### The two snoopers -/

variable {R : Receiver} {cmdSize txSize : ℕ}

def Event.milliVolts? : Event → Option ℕ
  | .printed milliVolts => some milliVolts
  | _ => none

def SerialCall.milliVolts? : SerialCall → Option ℕ
  | .printf _ milliVolts => some milliVolts
  | _ => none

theorem part_records (u : Uart) (sent : List Sent) :
    Transition.part u (records sent) = (Transition.part u sent).flatMap fun r =>
      [.printf u.snooperName r.1, .write r.2, .println] := by
  induction sent with
  | nil => rfl
  | cons r sent ih =>
      have hcons : records (r :: sent) = record r.1 r.2.1 r.2.2 ++ records sent := rfl
      have hsplit : Transition.part u (r :: sent) =
          Transition.part u [r] ++ Transition.part u sent := Transition.part_append u [r] sent
      rw [hcons, Transition.part_append, ih, hsplit, List.flatMap_append]
      congr 1
      obtain ⟨v, milliVolts, byteArray⟩ := r
      by_cases hv : v = u
      · subst hv
        simp [Transition.part, record]
      · simp [Transition.part, record, hv]

section

variable {u : Uart} {sent : List Sent} {h : List (Uart × Event)}

theorem milliVolts_of_records (htrace : serialTrace h = records sent) :
    (Transition.part u sent).map Prod.fst =
      (Transition.part u h).filterMap Event.milliVolts? := by
  have hpart := congrArg (List.filterMap SerialCall.milliVolts?)
    ((part_serialTrace u h).symm.trans ((congrArg (Transition.part u) htrace).trans
      (part_records u sent)))
  rw [List.filterMap_filterMap, List.filterMap_flatMap] at hpart
  have hevent : (fun e => (serialCall u e).bind SerialCall.milliVolts?) = Event.milliVolts? := by
    funext e
    cases e <;> rfl
  rw [hevent] at hpart
  rw [hpart]
  exact List.map_eq_flatMap

theorem printed_of_records (htrace : serialTrace h = records sent) :
    (Transition.part u sent).map Prod.snd =
      (printedRecords (Transition.part u h)).map Prod.snd := by
  rw [← written_serialTrace, htrace, part_records, List.filterMap_flatMap]
  exact List.map_eq_flatMap

end

theorem part_map_shown (u : Uart) (sent : List Sent) :
    Transition.part u (sent.map shown) =
      (Transition.part u sent).map fun r => (UInt32.ofNat r.1, r.2) := by
  rw [Transition.part, Transition.part, List.filterMap_map, List.map_filterMap]
  congr 1
  funext r
  by_cases hr : r.1 = u <;> simp [shown, hr]

theorem part_readRecords {sent : List Sent} {h : List (Uart × Event)}
    (htrace : serialTrace h = records sent)
    (hplain : ∀ u, ∀ r ∈ printedRecords (Transition.part u h), (0x0A : UInt8) ∉ r.2)
    (u : Uart) :
    (Transition.part u (readRecords (text (serialTrace h)))).map Prod.fst =
        ((Transition.part u h).filterMap Event.milliVolts?).map UInt32.ofNat ∧
      (Transition.part u (readRecords (text (serialTrace h)))).map Prod.snd =
        (printedRecords (Transition.part u h)).map Prod.snd := by
  have hfound : readRecords (text (serialTrace h)) = sent.map shown := by
    rw [htrace]
    refine readRecords_text ?_
    rintro ⟨v, milliVolts, byteArray⟩ hr
    have hmem : byteArray ∈ (Transition.part v sent).map Prod.snd :=
      List.mem_map.2 ⟨(milliVolts, byteArray), List.mem_filterMap.2 ⟨_, hr, if_pos rfl⟩, rfl⟩
    rw [printed_of_records htrace] at hmem
    obtain ⟨r, hprinted, rfl⟩ := List.mem_map.1 hmem
    exact hplain v r hprinted
  rw [hfound, part_map_shown, List.map_map, List.map_map, ← milliVolts_of_records htrace,
    ← printed_of_records htrace, List.map_map]
  exact ⟨rfl, rfl⟩

section

variable {rx : Uart → R.State} {ms : List (Uart × Move R)}

theorem exists_records
    (halone : Transition.StepsMeet Console.step PrintsAlone
      (Console.start cmdSize txSize rx) ms)
    (hquiet : ∀ u, ((Transition.run Console.step
      (Console.start cmdSize txSize rx) ms).1 u).txPc.stage = .quiet) :
    ∃ sent, serialTrace (Transition.run Console.step
      (Console.start cmdSize txSize rx) ms).2 = records sent := by
  have hagree : Agree (Transition.run Console.step (Console.start cmdSize txSize rx) ms).2
      (Transition.run Console.step (Console.start cmdSize txSize rx) ms).1 :=
    Transition.invariant_of_stepsMeet (agree_start rx)
      (fun _ _ m hc hm => hc.step m hm) halone
  obtain ⟨l, hl, hstage⟩ := hagree
  obtain rfl : l = .between := Line.eq_between (u := .uart1)
    ((hstage .uart1).symm.trans (hquiet .uart1)) ((hstage .uart2).symm.trans (hquiet .uart2))
  obtain ⟨sent, part, htrace, hpart⟩ := eq_records_of_follow hl
  rw [show part = [] from hpart, List.append_nil] at htrace
  exact ⟨sent, htrace⟩

/-- Whatever the interleaving of the two snoopers, if each `printf` is called while the
other is outside of its own record, no payload holds a line feed and no record is left
unfinished, then the records found for one snooper in the text written by the calls of
`Serial` are those it prints when it makes its own moves alone, with their voltages, in
order. -/
theorem console_readable (rx : Uart → R.State) (ms : List (Uart × Move R))
    (halone : Transition.StepsMeet Console.step PrintsAlone
      (Console.start cmdSize txSize rx) ms)
    (hquiet : ∀ u, ((Transition.run Console.step
      (Console.start cmdSize txSize rx) ms).1 u).txPc.stage = .quiet)
    (hplain : ∀ u, ∀ r ∈ printedRecords (Transition.run Tasks.step
      (Tasks.start cmdSize txSize (rx u)) (Transition.part u ms)).2, (0x0A : UInt8) ∉ r.2) :
    let found := readRecords (text (serialTrace
      (Transition.run Console.step (Console.start cmdSize txSize rx) ms).2))
    ∀ u, let own := (Transition.run Tasks.step (Tasks.start cmdSize txSize (rx u))
        (Transition.part u ms)).2
      (Transition.part u found).map Prod.fst =
          (own.filterMap Event.milliVolts?).map UInt32.ofNat ∧
        (Transition.part u found).map Prod.snd = (printedRecords own).map Prod.snd := by
  intro found u own
  have hown := fun u => congrArg Prod.snd (@run_console R cmdSize txSize rx ms u)
  obtain ⟨sent, htrace⟩ := exists_records halone hquiet
  have hparts := part_readRecords htrace (fun v r hr => hplain v r (hown v ▸ hr)) u
  rwa [show Transition.part u _ = own from hown u] at hparts

end

theorem printsAlone_of_quiet {c : Console R cmdSize txSize} {m : Uart × Move R}
    (h : (c m.1.other).txPc.stage = .quiet) : PrintsAlone c m :=
  fun _ _ _ _ => h

def twoPorts : List (Uart × Move (rxTask {})) :=
  (readBytes {} requestiPodName.frame ++ carryOn {}).map (fun m => (.uart1, m)) ++
    (readBytes {} requestiPodName.frame ++ carryOn {}).map (fun m => (.uart2, m))

theorem console_readable_twoPorts :
    let rx := fun _ : Uart => rxTaskStart {}
    let found := readRecords (text (serialTrace
      (Transition.run Console.step (Console.start 2 2 rx) twoPorts).2))
    ∀ u, let own := (Transition.run Tasks.step (Tasks.start 2 2 (rx u))
        (Transition.part u twoPorts)).2
      (Transition.part u found).map Prod.fst =
          (own.filterMap Event.milliVolts?).map UInt32.ofNat ∧
        (Transition.part u found).map Prod.snd = (printedRecords own).map Prod.snd := by
  have hquiet : Transition.StepsMeet Console.step
      (fun c m => (c (Uart.other m.1)).txPc.stage = .quiet)
      (Console.start 2 2 fun _ : Uart => rxTaskStart {}) twoPorts := by
    decide +kernel
  refine console_readable (fun _ => rxTaskStart {}) twoPorts
    (hquiet.imp fun c m h => printsAlone_of_quiet h) ?_ ?_
  · intro u
    cases u <;> decide +kernel
  · intro u
    cases u <;> decide +kernel

/-- Both payloads are found. -/
example :
    readRecords (text (serialTrace
      (Transition.run Console.step (Console.start 2 2 fun _ => rxTaskStart {}) twoPorts).2)) =
      [(.uart1, 3300, [0x07]), (.uart2, 3300, [0x07])] := by
  decide +kernel

end Snooper

end IpodEsp32
