import SovereignBus.Library.Machine
import SovereignBus.Library.Pieces

/-!
How `seb/runtime/src/seb_pnp_bridge.erl` reads `convergence_log.jsonl`.

* `readLines`, `processEntries`, `pollAndSeal`: the functions of the source, over
  any decoder of lines and any `seal_entry`.
* `pollAndSeal_visible` is what one poll does, `runPolls_visible` what a run of
  polls does to a log that grows.
* `TailsExactly`: the polls seal what one poll of the complete log seals.
  `tailsExactly_iff` says when they do.
-/

namespace SovereignBus

namespace Bridges

open Lines

section Source

variable {E S X : Type}

/-- The part of `#state` that a poll changes: the position, and what `seal_entry`
works on. -/
structure Tail (S : Type) where
  lastPos : ℕ
  sealing : S
  deriving DecidableEq

/-- The byte a line ends with. -/
def lineFeed (b : UInt8) : Bool := b == 10

/-- `file:read_line` returns a line without the carriage return of its end. -/
def lineRead (line : List UInt8) : List UInt8 :=
  match line.reverse with
  | 10 :: 13 :: rest => rest.reverse ++ [10]
  | _ => line

/-- `read_lines/3`, on the lines behind the position: what stands at the end of
the file without a line feed is the last of them. -/
def readLinesAcc : List (List UInt8) → ℕ → List (List UInt8) → List (List UInt8) × ℕ
  | [], pos, acc => (acc.reverse, pos)
  | line :: rest, pos, acc => readLinesAcc rest (pos + line.length) (lineRead line :: acc)

/-- `read_lines/2`, on the bytes behind the position. -/
def readLines (fd : List UInt8) (pos : ℕ) : List (List UInt8) × ℕ :=
  readLinesAcc (cut lineFeed fd) pos []

variable (decode : List UInt8 → Option E) (sealEntry : E → S → Except X S)

/-- `process_entries`. A line that is not decoded is passed over; `seal_entry`
may end the process. -/
def processEntries : List (List UInt8) → Tail S → Except X (Tail S)
  | [], state => .ok state
  | line :: rest, state =>
      match decode line with
      | none => processEntries rest state
      | some entry =>
          match sealEntry entry state.sealing with
          | .error x => .error x
          | .ok sealing => processEntries rest { state with sealing := sealing }

/-- `poll_and_seal`, on the bytes of the file if it can be opened. -/
def pollAndSeal (file : Option (List UInt8)) (state : Tail S) : Except X (Tail S) :=
  match file with
  | none => .ok state
  | some bytes =>
      let (lines, newPos) := readLines (bytes.drop state.lastPos) state.lastPos
      processEntries decode sealEntry lines { state with lastPos := newPos }

/-- A run of polls. -/
def runPolls (files : List (Option (List UInt8))) (state : Tail S) : Except X (Tail S) :=
  files.foldlM (fun state file => pollAndSeal decode sealEntry file state) state

/-- `seal_entry` on one entry after another. -/
def sealAll (entries : List E) (sealing : S) : Except X S :=
  entries.foldlM (fun sealing entry => sealEntry entry sealing) sealing

end Source

/-! ### A log that grows

A poll is described by the bytes that have come to be visible since the last one
that could open the file, `none` for one that could not. -/

/-- What the polls see of a log of which `seen` has been there. -/
def visible (seen : List UInt8) : List (Option (List UInt8)) → List (Option (List UInt8))
  | [] => []
  | none :: polls => none :: visible seen polls
  | some new :: polls => some (seen ++ new) :: visible (seen ++ new) polls

/-- The log that the polls have seen in the end. -/
def content (polls : List (Option (List UInt8))) : List UInt8 := polls.reduceOption.flatten

/-- The white space of JSON. -/
def jsonSpace (b : UInt8) : Bool := b == 9 || b == 10 || b == 13 || b == 32

/-- The polls are a poll of the complete log: whatever sealing an entry does, it
is done to the entries of the decodable lines, each once and in order. -/
def TailsExactly {E : Type} (decode : List UInt8 → Option E)
    (polls : List (Option (List UInt8))) : Prop :=
  ∀ (S X : Type) (sealEntry : E → S → Except X S) (s : S),
    runPolls decode sealEntry (visible [] polls) ⟨0, s⟩
        = pollAndSeal decode sealEntry (some (content polls)) ⟨0, s⟩
      ∧ runPolls decode sealEntry (visible [] polls) ⟨0, s⟩
        = (sealAll sealEntry (Lines.readLines lineFeed decode (content polls)) s).map
            (Tail.mk (content polls).length)

/-- A log of JSON lines. No part of a line decodes to the entry of the line, and
no part of a line that does not decode decodes. -/
def JsonLines {E : Type} (decode : List UInt8 → Option E) (log : List UInt8) : Prop :=
  ∀ line ∈ cut lineFeed log, Whole jsonSpace decode line ∨ Barren decode line

/-- Between these polls the end of the file is inside a line. -/
def Torn (pre post : List (Option (List UInt8))) : Prop :=
  Tears lineFeed jsonSpace (content pre) (content post)

/-- The line in which the file ends between the polls. -/
def tornLine (pre post : List (Option (List UInt8))) : List UInt8 :=
  unfinished lineFeed (content pre) ++ opening lineFeed (content post)

/-! ### One poll -/

variable {E S X : Type} {decode : List UInt8 → Option E} {sealEntry : E → S → Except X S}

lemma readLinesAcc_eq (lines : List (List UInt8)) (pos : ℕ) (acc : List (List UInt8)) :
    readLinesAcc lines pos acc
      = (acc.reverse ++ lines.map lineRead, pos + lines.flatten.length) := by
  induction lines generalizing pos acc with
  | nil => simp [readLinesAcc]
  | cons line lines ih =>
      rw [readLinesAcc, ih]
      simp [Nat.add_assoc]

/-- All bytes behind the position are read. -/
lemma readLines_eq (fd : List UInt8) (pos : ℕ) :
    readLines fd pos = ((cut lineFeed fd).map lineRead, pos + fd.length) := by
  rw [readLines, readLinesAcc_eq, flatten_cut, List.reverse_nil, List.nil_append]

/-- A decoder does not see the carriage return. -/
lemma decode_lineRead (hdecode : Insensitive jsonSpace decode) (line : List UInt8) :
    decode (lineRead line) = decode line := by
  rw [lineRead]
  split
  · next rest hrest =>
      have hline : line = rest.reverse ++ [13, 10] := by
        rw [← List.reverse_reverse line, hrest]
        simp
      rw [hline, hdecode.right _ [10] (by simp [Blank, jsonSpace]),
        hdecode.right _ [13, 10] (by simp [Blank, jsonSpace])]
  · rfl

lemma processEntries_eq (lines : List (List UInt8)) (pos : ℕ) (s : S) :
    processEntries decode sealEntry lines ⟨pos, s⟩
      = (sealAll sealEntry (lines.filterMap decode) s).map (Tail.mk pos) := by
  induction lines generalizing s with
  | nil => rfl
  | cons line lines ih =>
      rw [processEntries]
      cases hline : decode line with
      | none => rw [List.filterMap_cons_none hline, ← ih]
      | some entry =>
          rw [List.filterMap_cons_some hline, sealAll, List.foldlM_cons]
          cases hentry : sealEntry entry s with
          | error x =>
              simp only [hentry]
              rfl
          | ok s' =>
              simp only [hentry, ih]
              rfl

/-- What `seal_entry` keeps, a poll keeps, -/
lemma processEntries_preserves {P : S → Prop}
    (hstep : ∀ entry s s', P s → sealEntry entry s = .ok s' → P s')
    {lines : List (List UInt8)} {state state' : Tail S} (hP : P state.sealing)
    (hrun : processEntries decode sealEntry lines state = .ok state') : P state'.sealing := by
  induction lines generalizing state with
  | nil =>
      obtain ⟨⟩ := hrun
      exact hP
  | cons line lines ih =>
      rw [processEntries] at hrun
      split at hrun
      · exact ih hP hrun
      · next entry _ =>
          split at hrun
          · simp at hrun
          · next s hs => exact ih (hstep entry _ s hP hs) hrun

/-- and so does a run of polls, whatever the file is. -/
lemma runPolls_preserves {P : S → Prop}
    (hstep : ∀ entry s s', P s → sealEntry entry s = .ok s' → P s')
    {files : List (Option (List UInt8))} {state state' : Tail S} (hP : P state.sealing)
    (hrun : runPolls decode sealEntry files state = .ok state') : P state'.sealing := by
  refine Machine.foldlM_preserves (P := fun state => P state.sealing) ?_ hP hrun
  intro state file state' hP hpoll
  cases file with
  | none =>
      obtain ⟨⟩ := hpoll
      exact hP
  | some bytes =>
      simp only [pollAndSeal, readLines_eq] at hpoll
      refine processEntries_preserves hstep ?_ hpoll
      exact hP

/-- A poll seals the entries among the lines that the new bytes have by
themselves, and moves behind them. -/
lemma pollAndSeal_visible (hdecode : Insensitive jsonSpace decode) (seen new : List UInt8)
    (s : S) :
    pollAndSeal decode sealEntry (some (seen ++ new)) ⟨seen.length, s⟩
      = (sealAll sealEntry (Lines.readLines lineFeed decode new) s).map
          (Tail.mk (seen ++ new).length) := by
  have hfilter : ((cut lineFeed new).map lineRead).filterMap decode
      = Lines.readLines lineFeed decode new := by
    rw [List.filterMap_map, Lines.readLines]
    exact List.filterMap_congr fun line _ => decode_lineRead hdecode line
  rw [pollAndSeal]
  simp only [List.drop_left, readLines_eq]
  rw [processEntries_eq, hfilter, List.length_append]

/-! ### Runs of polls -/

lemma sealAll_append (es es' : List E) (s : S) :
    sealAll sealEntry (es ++ es') s = sealAll sealEntry es s >>= sealAll sealEntry es' := by
  rw [sealAll, List.foldlM_append]
  rfl

@[simp] lemma content_cons_some (new : List UInt8) (polls : List (Option (List UInt8))) :
    content (some new :: polls) = new ++ content polls := rfl

variable (sealEntry) in
/-- A run of polls seals the entries among the lines that the parts of the log
have by themselves. -/
lemma runPolls_visible (hdecode : Insensitive jsonSpace decode) (seen : List UInt8)
    (polls : List (Option (List UInt8))) (s : S) :
    runPolls decode sealEntry (visible seen polls) ⟨seen.length, s⟩
      = (sealAll sealEntry (readParts lineFeed decode polls.reduceOption) s).map
          (Tail.mk (seen ++ content polls).length) := by
  induction polls generalizing seen s with
  | nil =>
      rw [content, List.reduceOption_nil, List.flatten_nil, List.append_nil]
      rfl
  | cons poll polls ih =>
      cases poll with
      | none => exact ih seen s
      | some new =>
          rw [visible, runPolls, List.foldlM_cons, pollAndSeal_visible hdecode]
          have hparts : readParts lineFeed decode (List.reduceOption (some new :: polls))
              = Lines.readLines lineFeed decode new
                ++ readParts lineFeed decode polls.reduceOption := rfl
          rw [hparts, sealAll_append, content_cons_some, ← List.append_assoc]
          cases sealAll sealEntry (Lines.readLines lineFeed decode new) s with
          | error x => rfl
          | ok s' => exact ih (seen ++ new) s'

/-- A single poll of the complete log seals the entries of its lines. -/
lemma pollAndSeal_complete (hdecode : Insensitive jsonSpace decode) (log : List UInt8) (s : S) :
    pollAndSeal decode sealEntry (some log) ⟨0, s⟩
      = (sealAll sealEntry (Lines.readLines lineFeed decode log) s).map (Tail.mk log.length) :=
  pollAndSeal_visible hdecode [] log s

/-- Which entries are sealed shows in a sealing that collects them. -/
lemma sealAll_collect (es s : List E) :
    sealAll (fun e s => (.ok (s ++ [e]) : Except Unit (List E))) es s = .ok (s ++ es) := by
  induction es generalizing s with
  | nil => simp [sealAll]; rfl
  | cons e es ih =>
      have hstep := ih (s ++ [e])
      rw [List.append_assoc, List.singleton_append] at hstep
      rw [← hstep]
      rfl

/-- The polls are a poll of the complete log exactly if the parts of the log have
the entries of the log. -/
lemma tailsExactly_iff_readParts (hdecode : Insensitive jsonSpace decode)
    (polls : List (Option (List UInt8))) :
    TailsExactly decode polls
      ↔ readParts lineFeed decode polls.reduceOption
        = Lines.readLines lineFeed decode polls.reduceOption.flatten := by
  constructor
  · intro h
    have hcollect := (h (List E) Unit (fun e s => .ok (s ++ [e])) []).2
    have hrun := runPolls_visible (fun e s => (.ok (s ++ [e]) : Except Unit (List E))) hdecode []
      polls []
    rw [List.length_nil] at hrun
    rw [hrun, sealAll_collect, sealAll_collect] at hcollect
    simpa [Except.map, content] using hcollect
  · intro h S X sealEntry s
    have hrun := runPolls_visible sealEntry hdecode [] polls s
    rw [List.length_nil, List.nil_append, h] at hrun
    rw [pollAndSeal_complete hdecode]
    exact ⟨hrun, hrun⟩

/-- The parts of the log are cut where its polls are. -/
lemma forall_split_iff {P : List (List UInt8) → List (List UInt8) → Prop}
    (polls : List (Option (List UInt8))) :
    (∀ pre post, polls.reduceOption = pre ++ post → P pre post)
      ↔ ∀ pre post, polls = pre ++ post → P pre.reduceOption post.reduceOption := by
  constructor
  · rintro h pre post rfl
    exact h _ _ (List.reduceOption_append pre post)
  · intro h pre post heq
    obtain ⟨pre', post', rfl, rfl, rfl⟩ := List.filterMap_eq_append_iff.mp heq
    exact h pre' post' rfl

/-- The polls seal exactly the entries of the log, for every decoder that passes
over white space, if and only if no poll finds the end of the file inside a line.
For one decoder and a log of JSON lines it is enough, and necessary, that the
lines in which a poll finds the end of the file have no entry. -/
theorem tailsExactly_iff (polls : List (Option (List UInt8))) :
    ((∀ (E : Type) (decode : List UInt8 → Option E), Insensitive jsonSpace decode →
          TailsExactly decode polls)
        ↔ ∀ pre post, polls = pre ++ post → ¬ Torn pre post)
      ∧ ∀ (E : Type) (decode : List UInt8 → Option E), Insensitive jsonSpace decode →
        JsonLines decode (content polls) →
          (TailsExactly decode polls
            ↔ ∀ pre post, polls = pre ++ post → Torn pre post →
              decode (tornLine pre post) = none) := by
  refine ⟨?_, fun E decode hdecode hlines => ?_⟩
  · calc (∀ (E : Type) (decode : List UInt8 → Option E), Insensitive jsonSpace decode →
          TailsExactly decode polls)
        ↔ ∀ (E : Type) (decode : List UInt8 → Option E), Insensitive jsonSpace decode →
            readParts lineFeed decode polls.reduceOption
              = Lines.readLines lineFeed decode polls.reduceOption.flatten :=
          forall₃_congr fun E decode hdecode => tailsExactly_iff_readParts hdecode polls
      _ ↔ ∀ pre post, polls.reduceOption = pre ++ post →
            ¬ Tears lineFeed jsonSpace pre.flatten post.flatten := read_in_parts_iff _
      _ ↔ ∀ pre post, polls = pre ++ post → ¬ Torn pre post := forall_split_iff polls
  · calc TailsExactly decode polls
        ↔ readParts lineFeed decode polls.reduceOption
            = Lines.readLines lineFeed decode polls.reduceOption.flatten :=
          tailsExactly_iff_readParts hdecode polls
      _ ↔ ∀ pre post, polls.reduceOption = pre ++ post →
            Tears lineFeed jsonSpace pre.flatten post.flatten →
            decode (unfinished lineFeed pre.flatten ++ opening lineFeed post.flatten) = none :=
          readParts_eq_iff hdecode hlines
      _ ↔ ∀ pre post, polls = pre ++ post → Torn pre post →
            decode (tornLine pre post) = none := forall_split_iff polls

/-! ### A line that comes in two halves -/

/-- The text of an entry. -/
def entryText : List UInt8 :=
  "\x7b\"problemId\":\"p\"\x7d".toList.map fun c => UInt8.ofNat c.toNat

/-- The decoder, as far as the text of the entry and its halves go. -/
def decodeText (text : List UInt8) : Option Unit := if text = entryText then some () else none

def decodeEntry (line : List UInt8) : Option Unit := decodeText (strip jsonSpace line)

/-- A poll in the middle of the line, and one behind it. -/
def halves : List (Option (List UInt8)) :=
  [some (entryText.take 8), some (entryText.drop 8 ++ [10])]

/-- The polls lose the entry that a poll of the complete log seals. -/
theorem entry_lost :
    Insensitive jsonSpace decodeEntry ∧ JsonLines decodeEntry (content halves)
      ∧ content halves = entryText ++ [10]
      ∧ Lines.readLines lineFeed decodeEntry (content halves) = [()]
      ∧ ¬ TailsExactly decodeEntry halves := by
  have hdecode : Insensitive jsonSpace decodeEntry := insensitive_strip (by decide)
  have hcut : cut lineFeed (content halves) = [entryText ++ [10]] := by decide
  have hstrip : strip jsonSpace (entryText ++ [10]) = entryText := by decide
  refine ⟨hdecode, ?_, by decide, by decide, ?_⟩
  · intro line hline
    rw [hcut, List.mem_singleton] at hline
    refine .inl (whole_strip decodeText () ?_ ?_)
    · rw [hline, hstrip, decodeText, if_pos rfl]
    · intro v hv
      rw [hline, hstrip]
      by_contra hne
      rw [decodeText, if_neg hne] at hv
      simp at hv
  · rw [tailsExactly_iff_readParts hdecode]
    decide

end Bridges

end SovereignBus
