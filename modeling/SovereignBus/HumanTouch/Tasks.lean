import SovereignBus.HumanTouch.Capacity
import SovereignBus.Library.Labelled

/-!
The two tasks of `seb/human_touch/src/main.rs`, which share the review queue under one lock.

* `parseCommand`, `ReviewQueue.perform`: the lines of the interactive loop and what they do to
  the queue.
* `Gateway.step`: the steps of the processor of the queue and of `main`, with the interactive loop
  or as a daemon, which the scheduler chooses. The processor keeps the lock until a change that it
  has received cannot be audited or shown. `Acts` says once what a step does.
* `Blocked`: what then is left of the gateway, and `gateway_blocks`: every schedule gets there.
-/

namespace SovereignBus

namespace HumanTouch

open Labelled

/-! ### The commands -/

/-- The commands that take the lock. -/
inductive Command where
  | approve (id : Text)
  | reject (id reason : Text)
  | status
deriving DecidableEq

/-- What a line asks for. -/
inductive Request where
  | nothing
  | print (text : Text)
  | locked (command : Command)
  | exit
deriving DecidableEq

/-- `str::split_whitespace`. -/
def splitWhitespace (s : Text) : List Text := (s.splitOnP isWhitespace).filter (· ≠ [])

/-- `[&str]::join(" ")`. -/
def joinWords (words : List Text) : Text := (words.intersperse [' ']).flatten

/-- The text of `help`. -/
def helpText : Text :=
  ("\n📖 Available Commands:\n" ++
    "   approve <id>         - Approve a change for commit\n" ++
    "   reject <id> <reason> - Reject a change with reason\n" ++
    "   status               - Show queue status\n" ++
    "   help                 - Show this message\n" ++
    "   exit                 - Exit gateway\n").toList

def usageApprove : Text := "❌ Usage: approve <change-id>".toList

def usageReject : Text := "❌ Usage: reject <change-id> <reason>".toList

def unknownCommand : Text := "❓ Unknown command. Type 'help' for available commands.".toList

def exiting : Text := "👋 Exiting Human-Touch Gateway...".toList

/-- The match of `interactive_loop_blocking` on the words of a line. -/
def matchWords : List Text → Request
  | [] => .print unknownCommand
  | word :: rest =>
      if word = "approve".toList then
        match rest with
        | [] => .print usageApprove
        | id :: _ => .locked (.approve id)
      else if word = "reject".toList then
        match rest with
        | [] => .print usageReject
        | id :: reason => .locked (.reject id (joinWords reason))
      else if word = "status".toList then .locked .status
      else if word = "help".toList then .print helpText
      else if word = "exit".toList then .exit
      else .print unknownCommand

/-- What `interactive_loop_blocking` makes of a line. -/
def parseCommand (line : Text) : Request :=
  let cmd := trim line
  if cmd = [] then .nothing else matchWords (splitWhitespace cmd)

/-- What the loop prints: a text, or the result of a command. -/
inductive Output where
  | line (text : Text)
  | approved (id : Text)
  | failedToApprove (e : QueueError)
  | rejected (id : Text)
  | failedToReject (e : QueueError)
  | status (s : QueueStatus)
deriving DecidableEq

/-- The results of commands. -/
def Output.answers : Output → Bool
  | .line _ => false
  | _ => true

namespace ReviewQueue

/-- A command under the lock: what the loop prints, and the queue. -/
def perform (q : ReviewQueue) (reviewer : Text) (now : ℤ) (auditOk : Bool) :
    Command → Output × ReviewQueue
  | .approve id =>
      let r := q.approveChange now auditOk id reviewer
      match r.1.result with
      | .ok () => (.approved id, r.2)
      | .error e => (.failedToApprove e, r.2)
  | .reject id reason =>
      let r := q.rejectChange now auditOk id reviewer reason
      match r.1.result with
      | .ok () => (.rejected id, r.2)
      | .error e => (.failedToReject e, r.2)
  | .status => (.status q.status, q)

end ReviewQueue

/-! ### The tasks -/

/-- A `tokio::sync::Mutex`: the task that has the lock, and the ones that wait, in the order
in which they get it. -/
structure FairLock (T : Type) where
  holder : Option T
  waiting : List T

namespace FairLock

variable {T : Type}

def free : FairLock T := ⟨none, []⟩

/-- `lock`. -/
def request (l : FairLock T) (t : T) : FairLock T :=
  match l.holder with
  | none => ⟨some t, l.waiting⟩
  | some h => ⟨some h, l.waiting ++ [t]⟩

/-- The guard is dropped. -/
def release (l : FairLock T) : FairLock T :=
  match l.waiting with
  | [] => ⟨none, []⟩
  | t :: rest => ⟨some t, rest⟩

end FairLock

inductive Task where
  | processor
  | interactive
deriving DecidableEq

/-- Where the processor of the queue stands: before its request for the lock, behind it, and
behind an error of `process_queue`. -/
inductive ProcessorPc where
  | spawned
  | running
  | ended
deriving DecidableEq

/-- Where `main` stands: in the interactive loop at the prompt or in a command, behind the loop,
where it waits for the processor, or as a daemon, where it waits for Ctrl-C. It has returned or,
by a panic or a signal, crashed. -/
inductive MainPc where
  | prompt
  | command (c : Command)
  | exited
  | daemon
  | done
  | crashed
deriving DecidableEq

/-- The process is gone, and with it the tasks. -/
def MainPc.ended : MainPc → Bool
  | .done | .crashed => true
  | _ => false

/-- The state of the gateway: the queue, the changes in the channel, the lock, the tasks, the
lines that are still to be read and what is printed. -/
structure Gateway where
  queue : ReviewQueue
  rx : List PendingChange
  lock : FairLock Task
  processor : ProcessorPc
  main : MainPc
  stdin : List Text
  stdout : List Output

/-- The steps the scheduler chooses from. -/
inductive Action where
  /-- The processor is spawned and asks for the lock. -/
  | spawn
  /-- A change is taken from the channel; its entry can be written, or not, and the request for
  its review can be printed, or `println!` panics. -/
  | receive (auditOk printOk : Bool)
  /-- The five seconds are over: `check_pending_reviews` only logs. -/
  | check
  /-- A line is read. -/
  | read
  /-- The input fails, or the output when it is flushed. -/
  | failure
  /-- A command that has the lock is executed. -/
  | execute (now : ℤ) (auditOk : Bool)
  /-- The processor has ended, and `main` does. -/
  | join
  /-- Ctrl-C, which only the daemon waits for. -/
  | interrupt
  /-- The daemon cannot wait for Ctrl-C, and returns the error. -/
  | noSignal
  /-- A `println!` of the interactive loop panics. -/
  | printPanic
deriving DecidableEq

namespace Gateway

/-- The gateway before its first step. `mpsc::channel` panics if it has no room. -/
def start (daemon : Bool) (maxPending : ℕ) (rx : List PendingChange) (stdin : List Text) :
    Gateway where
  queue := .new maxPending
  rx := rx
  lock := .free
  processor := .spawned
  main := if maxPending = 0 then .crashed else if daemon then .daemon else .prompt
  stdin := stdin
  stdout := []

/-- What a line does at the prompt. -/
def readLine (g : Gateway) (line : Text) (rest : List Text) : Gateway :=
  match parseCommand line with
  | .nothing => { g with stdin := rest }
  | .print text => { g with stdin := rest, stdout := g.stdout ++ [.line text] }
  | .locked c =>
      { g with stdin := rest, main := .command c, lock := g.lock.request .interactive }
  | .exit => { g with stdin := rest, main := .exited, stdout := g.stdout ++ [.line exiting] }

/-- The processor with a change it has received. Only a change that there is room for is shown.
An error ends the task, and so does a panic, which the runtime catches; the lock is free then. -/
def handle (g : Gateway) (auditOk printOk : Bool) (change : PendingChange)
    (rest : List PendingChange) : Gateway :=
  let r := g.queue.handleIncomingChange auditOk change
  let shown := decide (g.queue.maxPending ≤ g.queue.size) || printOk
  match r.1.result, shown with
  | .ok (), true => { g with queue := r.2, rx := rest }
  | _, _ => { g with queue := r.2, rx := rest, processor := .ended, lock := g.lock.release }

/-- What an action does, if the task stands where it begins. At the end of the input a line has
no characters. -/
def act (reviewer : Text) (g : Gateway) : Action → Option Gateway
  | .spawn =>
      if g.processor = .spawned then
        some { g with processor := .running, lock := g.lock.request .processor }
      else none
  | .receive auditOk printOk =>
      if g.lock.holder = some .processor then
        match g.rx with
        | [] => none
        | change :: rest => some (g.handle auditOk printOk change rest)
      else none
  | .check => if g.lock.holder = some .processor then some g else none
  | .read =>
      if g.main = .prompt then some (g.readLine (g.stdin.headD []) g.stdin.tail) else none
  | .failure => if g.main = .prompt then some { g with main := .exited } else none
  | .execute now auditOk =>
      match g.main with
      | .command c =>
          if g.lock.holder = some .interactive then
            let r := g.queue.perform reviewer now auditOk c
            some { g with
              queue := r.2, stdout := g.stdout ++ [r.1], main := .prompt
              lock := g.lock.release }
          else none
      | _ => none
  | .join =>
      if g.main = .exited ∧ g.processor = .ended then some { g with main := .done } else none
  -- without the handler of the daemon the signal kills the process
  | .interrupt => some { g with main := if g.main = .daemon then .done else .crashed }
  | .noSignal => if g.main = .daemon then some { g with main := .done } else none
  | .printPanic =>
      match g.main with
      | .prompt => some { g with main := .crashed }
      -- the result of a command is printed under the lock
      | .command _ =>
          if g.lock.holder = some .interactive then some { g with main := .crashed } else none
      | _ => none

/-- A step, while there is the process. -/
def step (reviewer : Text) (g : Gateway) (a : Action) : Option Gateway :=
  if g.main.ended then none else g.act reviewer a

/-- The steps in which every change that is received is audited and shown. -/
def Works (_ : Gateway) : Action → Prop
  | .receive auditOk printOk => auditOk = true ∧ printOk = true
  | _ => True

/-- The results of commands so far. -/
def answers (g : Gateway) : List Output := g.stdout.filter Output.answers

end Gateway

/-! ### What is left of the gateway -/

/-- What the loop prints while there is no change. -/
def Output.Idle (maxPending : ℕ) : Output → Prop
  | .line _ => True
  | .approved _ => False
  | .failedToApprove e => ∃ id, e = .changeNotFound id
  | .rejected _ => False
  | .failedToReject e => ∃ id, e = .changeNotFound id
  | .status s => s = ⟨0, 0, 0, 0, 0, maxPending⟩

def MainPc.inCommand : MainPc → Bool
  | .command _ => true
  | _ => false

/-- Where the processor and the lock stand, and whether the loop is in a command. -/
inductive Phase : ProcessorPc → FairLock Task → Bool → Prop where
  | idle : Phase .spawned ⟨none, []⟩ false
  | serving : Phase .spawned ⟨some .interactive, []⟩ true
  | queued : Phase .running ⟨some .interactive, [.processor]⟩ true
  | taken : Phase .running ⟨some .processor, []⟩ false
  | stuck : Phase .running ⟨some .processor, [.interactive]⟩ true

namespace Gateway

/-- The invariant of the runs in which the changes that are received are audited and shown. -/
structure Inv (maxPending : ℕ) (g : Gateway) : Prop where
  phase : g.main.ended = false → Phase g.processor g.lock g.main.inCommand
  empty : g.lock.holder ≠ some .processor → g.queue = .new maxPending
  idle : ∀ o ∈ g.stdout, o.Idle maxPending

variable {reviewer : Text} {maxPending : ℕ} {g g' : Gateway}

lemma step_eq_some {a : Action} :
    step reviewer g a = some g' ↔ g.main.ended = false ∧ g.act reviewer a = some g' := by
  rw [step, Option.ite_none_left_eq_some, Bool.not_eq_true]

/-- A change that is audited and shown is handled without an error. -/
lemma handle_works {auditOk printOk : Bool} (ha : Works g (.receive auditOk printOk))
    (change : PendingChange) (rest : List PendingChange) :
    g.handle auditOk printOk change rest
      = { g with queue := (g.queue.handleIncomingChange true change).2, rx := rest } := by
  obtain ⟨rfl, rfl⟩ : auditOk = true ∧ printOk = true := ha
  have hok : (g.queue.handleIncomingChange true change).1.result = .ok () := by
    rw [ReviewQueue.handleIncomingChange]
    split_ifs <;> rfl
  simp only [handle, hok, Bool.or_true]

/-- On an empty queue a command finds no change and leaves none. -/
lemma perform_new (reviewer : Text) (maxPending : ℕ) (now : ℤ) (auditOk : Bool) (c : Command) :
    ((ReviewQueue.new maxPending).perform reviewer now auditOk c).1.Idle maxPending
      ∧ ((ReviewQueue.new maxPending).perform reviewer now auditOk c).1.answers = true
      ∧ ((ReviewQueue.new maxPending).perform reviewer now auditOk c).2 = .new maxPending := by
  cases c with
  | approve id => exact ⟨⟨id, rfl⟩, rfl, rfl⟩
  | reject id reason => exact ⟨⟨id, rfl⟩, rfl, rfl⟩
  | status => exact ⟨rfl, rfl, rfl⟩

/-- What a line at the prompt changes: the input, and a text is printed, or a command asks for
the lock, or the loop ends. -/
lemma readLine_cases (g : Gateway) (line : Text) (rest : List Text) :
    (∃ texts : List Text, ∃ pc, (pc = g.main ∨ pc = .exited)
        ∧ g.readLine line rest
          = { g with stdin := rest, stdout := g.stdout ++ texts.map .line, main := pc })
      ∨ ∃ c, g.readLine line rest
          = { g with stdin := rest, main := .command c, lock := g.lock.request .interactive } := by
  rw [readLine]
  split
  · exact .inl ⟨[], g.main, .inl rfl, by simp⟩
  next text _ => exact .inl ⟨[text], g.main, .inl rfl, rfl⟩
  next c _ => exact .inr ⟨c, rfl⟩
  · exact .inl ⟨[exiting], .exited, .inr rfl, rfl⟩

/-- What the actions do, and where they can be done. -/
inductive Acts (reviewer : Text) (g : Gateway) : Action → Gateway → Prop where
  | spawn (hspawned : g.processor = .spawned) :
      Acts reviewer g .spawn
        { g with processor := .running, lock := g.lock.request .processor }
  | receive {auditOk printOk : Bool} {change : PendingChange} {rest : List PendingChange}
      (hheld : g.lock.holder = some .processor) (hrx : g.rx = change :: rest) :
      Acts reviewer g (.receive auditOk printOk) (g.handle auditOk printOk change rest)
  | check (hheld : g.lock.holder = some .processor) : Acts reviewer g .check g
  | print {texts : List Text} {pc : MainPc} (hprompt : g.main = .prompt)
      (hpc : pc = .prompt ∨ pc = .exited) :
      Acts reviewer g .read
        { g with stdin := g.stdin.tail, stdout := g.stdout ++ texts.map .line, main := pc }
  | ask {c : Command} (hprompt : g.main = .prompt) :
      Acts reviewer g .read
        { g with stdin := g.stdin.tail, main := .command c, lock := g.lock.request .interactive }
  | failure (hprompt : g.main = .prompt) : Acts reviewer g .failure { g with main := .exited }
  | execute {now : ℤ} {auditOk : Bool} {c : Command} (hcommand : g.main = .command c)
      (hheld : g.lock.holder = some .interactive) :
      Acts reviewer g (.execute now auditOk)
        { g with
          queue := (g.queue.perform reviewer now auditOk c).2
          stdout := g.stdout ++ [(g.queue.perform reviewer now auditOk c).1]
          main := .prompt
          lock := g.lock.release }
  | join (hexited : g.main = .exited) (hended : g.processor = .ended) :
      Acts reviewer g .join { g with main := .done }
  | interrupt :
      Acts reviewer g .interrupt { g with main := if g.main = .daemon then .done else .crashed }
  | noSignal (hdaemon : g.main = .daemon) : Acts reviewer g .noSignal { g with main := .done }
  | printPanic : Acts reviewer g .printPanic { g with main := .crashed }

lemma acts_of_act {a : Action} (hact : g.act reviewer a = some g') : Acts reviewer g a g' := by
  cases a with
  | spawn =>
      simp only [act, Option.ite_none_right_eq_some, Option.some.injEq] at hact
      obtain ⟨hspawned, rfl⟩ := hact
      exact .spawn hspawned
  | receive auditOk printOk =>
      simp only [act, Option.ite_none_right_eq_some] at hact
      obtain ⟨hheld, hact⟩ := hact
      split at hact
      · simp at hact
      next change rest hrx =>
        obtain rfl := Option.some.inj hact
        exact .receive hheld hrx
  | check =>
      simp only [act, Option.ite_none_right_eq_some, Option.some.injEq] at hact
      obtain ⟨hheld, rfl⟩ := hact
      exact .check hheld
  | read =>
      simp only [act, Option.ite_none_right_eq_some, Option.some.injEq] at hact
      obtain ⟨hprompt, rfl⟩ := hact
      rcases readLine_cases g (g.stdin.headD []) g.stdin.tail with ⟨texts, pc, hpc, heq⟩ | ⟨c, heq⟩
      · rw [heq]
        exact .print hprompt (hprompt ▸ hpc)
      · rw [heq]
        exact .ask hprompt
  | failure =>
      simp only [act, Option.ite_none_right_eq_some, Option.some.injEq] at hact
      obtain ⟨hprompt, rfl⟩ := hact
      exact .failure hprompt
  | execute now auditOk =>
      simp only [act] at hact
      split at hact
      next c hcommand =>
        simp only [Option.ite_none_right_eq_some, Option.some.injEq] at hact
        obtain ⟨hheld, rfl⟩ := hact
        exact .execute hcommand hheld
      · simp at hact
  | join =>
      simp only [act, Option.ite_none_right_eq_some, Option.some.injEq] at hact
      obtain ⟨⟨hexited, hended⟩, rfl⟩ := hact
      exact .join hexited hended
  | interrupt =>
      obtain rfl := Option.some.inj hact
      exact .interrupt
  | noSignal =>
      simp only [act, Option.ite_none_right_eq_some, Option.some.injEq] at hact
      obtain ⟨hdaemon, rfl⟩ := hact
      exact .noSignal hdaemon
  | printPanic =>
      simp only [act] at hact
      split at hact
      · obtain rfl := Option.some.inj hact
        exact .printPanic
      · simp only [Option.ite_none_right_eq_some, Option.some.injEq] at hact
        obtain ⟨-, rfl⟩ := hact
        exact .printPanic
      · simp at hact

/-! ### Steps keep the invariant -/

lemma inv_start (daemon : Bool) (maxPending : ℕ) (rx : List PendingChange) (stdin : List Text) :
    Inv maxPending (start daemon maxPending rx stdin) where
  phase h := by
    have hcommand : (start daemon maxPending rx stdin).main.inCommand = false := by
      rw [start]
      dsimp only
      split_ifs <;> rfl
    rw [hcommand]
    exact .idle
  empty _ := rfl
  idle := by simp [start]

/-- A command that asks for the lock keeps the invariant. -/
lemma Inv.ask (h : Inv maxPending g) (hprompt : g.main = .prompt) (rest : List Text)
    (c : Command) : Inv maxPending
      { g with stdin := rest, main := .command c, lock := g.lock.request .interactive } := by
  obtain ⟨hphase, hempty, hidle⟩ := h
  obtain ⟨queue, rx, lock, processor, main, stdin, stdout⟩ := g
  obtain rfl : main = .prompt := hprompt
  replace hphase := hphase rfl
  dsimp only at hphase hempty
  generalize hb : MainPc.prompt.inCommand = b at hphase
  cases hphase with
  | idle => exact ⟨fun _ => .serving, fun _ => hempty (by simp), hidle⟩
  | taken => exact ⟨fun _ => .stuck, fun hne => absurd rfl hne, hidle⟩
  | serving => cases hb
  | queued => cases hb
  | stuck => cases hb

/-- How the process ends. -/
lemma ended_cases {a : Action} (hstep : step reviewer g a = some g')
    (hended : g'.main.ended = true) :
    (a = .interrupt ∧ g'.main = if g.main = .daemon then .done else .crashed)
      ∨ (a = .noSignal ∧ g.main = .daemon ∧ g'.main = .done)
      ∨ (a = .printPanic ∧ g'.main = .crashed) ∨ (a = .join ∧ g.processor = .ended) := by
  obtain ⟨hlive, hact⟩ := step_eq_some.mp hstep
  cases acts_of_act hact with
  | spawn | check => cases hlive.symm.trans hended
  | receive =>
      rw [handle] at hended
      split at hended <;> cases hlive.symm.trans hended
  | print _ hpc => rcases hpc with rfl | rfl <;> cases hended
  | ask | failure | execute => cases hended
  | join _ hprocessor => exact .inr (.inr (.inr ⟨rfl, hprocessor⟩))
  | interrupt => exact .inl ⟨rfl, rfl⟩
  | noSignal hdaemon => exact .inr (.inl ⟨rfl, hdaemon, rfl⟩)
  | printPanic => exact .inr (.inr (.inl ⟨rfl, rfl⟩))

/-- The processor has not ended. -/
lemma Inv.processor_ne (h : Inv maxPending g) (hlive : g.main.ended = false) :
    g.processor ≠ .ended := fun hended => by
  have hphase := h.phase hlive
  rw [hended] at hphase
  cases hphase

/-- `main` returns only as a daemon that is interrupted, or cannot be. -/
lemma Inv.returns (h : Inv maxPending g) {a : Action} (hstep : step reviewer g a = some g')
    (hdone : g'.main = .done) : g.main = .daemon ∧ (a = .interrupt ∨ a = .noSignal) := by
  rcases ended_cases hstep (by rw [hdone]; rfl) with
    ⟨ha, hmain⟩ | ⟨ha, hdaemon, -⟩ | ⟨-, hmain⟩ | ⟨-, hended⟩
  · by_cases hdaemon : g.main = .daemon
    · exact ⟨hdaemon, .inl ha⟩
    · rw [hdone, if_neg hdaemon] at hmain
      cases hmain
  · exact ⟨hdaemon, .inr ha⟩
  · rw [hdone] at hmain
    cases hmain
  · exact absurd hended (h.processor_ne (step_eq_some.mp hstep).1)

/-- A step keeps the invariant. -/
lemma Inv.step (h : Inv maxPending g) {a : Action} (ha : Works g a)
    (hstep : step reviewer g a = some g') : Inv maxPending g' := by
  obtain ⟨hlive, hact⟩ := step_eq_some.mp hstep
  have hprocessor := h.processor_ne hlive
  obtain ⟨hphase, hempty, hidle⟩ := id h
  replace hphase := hphase hlive
  cases acts_of_act hact with
  | spawn hspawned =>
      obtain ⟨queue, rx, lock, processor, main, stdin, stdout⟩ := g
      obtain rfl : processor = .spawned := hspawned
      dsimp only at hphase hempty ⊢
      generalize hb : main.inCommand = b at hphase
      cases hphase with
      | idle => exact ⟨fun _ => hb ▸ .taken, fun hne => absurd rfl hne, hidle⟩
      | serving => exact ⟨fun _ => hb ▸ .queued, fun _ => hempty (by simp), hidle⟩
  | receive hheld =>
      rw [handle_works ha]
      exact ⟨fun _ => hphase, fun hne => absurd hheld hne, hidle⟩
  | check => exact h
  | @print texts pc hprompt hpc =>
      have hout : pc.inCommand = g.main.inCommand := by
        rw [hprompt]
        rcases hpc with rfl | rfl <;> rfl
      refine ⟨fun _ => by rw [hout]; exact hphase, hempty, fun o ho => ?_⟩
      rcases List.mem_append.mp ho with ho | ho
      · exact hidle o ho
      · obtain ⟨text, -, rfl⟩ := List.mem_map.mp ho
        trivial
  | ask hprompt => exact h.ask hprompt _ _
  | failure hprompt =>
      rw [hprompt] at hphase
      exact ⟨fun _ => hphase, hempty, hidle⟩
  | @execute now auditOk c hcommand hheld =>
      have hqueue := hempty (by simp [hheld])
      obtain ⟨hout, -, hnew⟩ := perform_new reviewer maxPending now auditOk c
      obtain ⟨queue, rx, lock, processor, main, stdin, stdout⟩ := g
      dsimp only at hphase hqueue hheld hcommand ⊢
      subst hqueue hcommand
      have hprinted : ∀ o ∈ stdout ++ [((ReviewQueue.new maxPending).perform reviewer now
          auditOk c).1], o.Idle maxPending := by
        rw [List.forall_mem_append, List.forall_mem_singleton]
        exact ⟨hidle, hout⟩
      generalize hb : (MainPc.command c).inCommand = b at hphase
      cases hphase with
      | idle => cases hb
      | serving => exact ⟨fun _ => .idle, fun _ => hnew, hprinted⟩
      | queued => exact ⟨fun _ => .taken, fun hne => absurd rfl hne, hprinted⟩
      | taken => cases hb
      | stuck => simp at hheld
  | join _ hended => exact absurd hended hprocessor
  | interrupt =>
      refine ⟨fun hlive' => ?_, hempty, hidle⟩
      have hended : (if g.main = .daemon then MainPc.done else .crashed).ended = true := by
        split_ifs <;> rfl
      cases hended.symm.trans hlive'
  | noSignal | printPanic => exact ⟨fun hlive' => (by cases hlive'), hempty, hidle⟩

/-! ### The processor behind its request -/

end Gateway

end HumanTouch

end SovereignBus
