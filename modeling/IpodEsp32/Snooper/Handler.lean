import IpodEsp32.Snooper.Endian

/-!
# Packet handlers and what they read

The functions that handle a packet read single bytes and 32-bit words through a
pointer into its payload, log what they find, and queue packets for transmission. A
`Handler` does so on an environment, the memory from the start of the payload on and
the debug level of the build, and returns the effects in order: each byte read by its
index, each line logged, each packet queued. Nothing stops a handler from reading
behind the payload.

The arguments of a log line are evaluated only in a build whose debug level includes
the line.
-/

namespace IpodEsp32

namespace Snooper

/-- The levels of the `ESP_LOG` macros in use. -/
inductive LogLevel
  | warn
  | info
  | debug
  deriving DecidableEq

/-- The least `CORE_DEBUG_LEVEL` that compiles the lines of a level. -/
def LogLevel.threshold : LogLevel → ℕ
  | .warn => 2
  | .info => 3
  | .debug => 4

/-- What the handling of a packet does, in order: it reads a byte of the memory, logs
a line with the values of its arguments, calls the processor of a Lingo on a packet
of `len` bytes, or queues a packet. -/
inductive Effect
  | read (index : ℕ)
  | logged (level : LogLevel) (format : String) (args : List ℕ)
  | processed (lingo : UInt8) (len : UInt32)
  | queued (bytes : List UInt8)
  deriving DecidableEq

/-- The build and the memory in which a packet is handled. -/
structure Env where
  coreDebugLevel : ℕ
  memory : ℕ → UInt8

/-- A packet at the start of a memory that holds `beyond` behind it. -/
def Env.holding (coreDebugLevel : ℕ) (bytes : List UInt8) (beyond : ℕ → UInt8) : Env where
  coreDebugLevel := coreDebugLevel
  memory i := bytes.getD i (beyond i)

def Handler (α : Type) : Type := Env → α × List Effect

instance : Monad Handler where
  pure a := fun _ => (a, [])
  bind x f := fun env =>
    ((f (x env).1 env).1, (x env).2 ++ (f (x env).1 env).2)

def Handler.value {α : Type} (x : Handler α) (env : Env) : α := (x env).1

def Handler.effects {α : Type} (x : Handler α) (env : Env) : List Effect := (x env).2

def readByte (p : ℕ) : Handler UInt8 := fun env => (env.memory p, [.read p])

/-- The `uint32_t` at `p`, passed through `swap_endian`. -/
def readWord (p : ℕ) : Handler ℕ := do
  let b₀ ← readByte p
  let b₁ ← readByte (p + 1)
  let b₂ ← readByte (p + 2)
  let b₃ ← readByte (p + 3)
  return swapEndian 4 (littleEndian [b₀, b₁, b₂, b₃])

def espLog (level : LogLevel) (format : String) (args : Handler (List ℕ)) : Handler Unit :=
  fun env =>
    if level.threshold ≤ env.coreDebugLevel then
      ((), args.effects env ++ [.logged level format (args.value env)])
    else ((), [])

/-- `processLingo0x00` or `processLingo0x04` is called on a packet of `len` bytes. -/
def enterProcessor (lingo : UInt8) (len : UInt32) : Handler Unit :=
  fun _ => ((), [.processed lingo len])

/-- `snooper::_queuePacket` up to the call of `xQueueSend`: `len` bytes are copied
from `byteArray`. -/
def queuePacket (byteArray : ℕ) (len : UInt32) : Handler Unit := fun env =>
  let indices := (List.range len.toNat).map fun i => byteArray + i
  ((), indices.map .read ++ [.queued (indices.map env.memory)])

/-! ### The bytes read and the packets queued -/

@[simp] def Effect.read? : Effect → Option ℕ
  | .read index => some index
  | _ => none

@[simp] def Effect.queued? : Effect → Option (List UInt8)
  | .queued bytes => some bytes
  | _ => none

@[simp] def Effect.processed? : Effect → Option UInt32
  | .processed _ len => some len
  | _ => none

variable {α β : Type}

def Handler.reads (x : Handler α) (env : Env) : List ℕ :=
  (x.effects env).filterMap Effect.read?

def Handler.queued (x : Handler α) (env : Env) : List (List UInt8) :=
  (x.effects env).filterMap Effect.queued?

/-- The lengths a handler passes on to the processors of the Lingoes. -/
def Handler.processed (x : Handler α) (env : Env) : List UInt32 :=
  (x.effects env).filterMap Effect.processed?

@[simp] theorem value_bind (x : Handler α) (f : α → Handler β) (env : Env) :
    (x >>= f).value env = (f (x.value env)).value env := rfl

@[simp] theorem effects_bind (x : Handler α) (f : α → Handler β) (env : Env) :
    (x >>= f).effects env = x.effects env ++ (f (x.value env)).effects env := rfl

@[simp] theorem effects_pure (a : α) (env : Env) :
    (pure a : Handler α).effects env = [] := rfl

@[simp] theorem value_readByte (p : ℕ) (env : Env) :
    (readByte p).value env = env.memory p := rfl

@[simp] theorem effects_readByte (p : ℕ) (env : Env) :
    (readByte p).effects env = [.read p] := rfl

@[simp] theorem effects_readWord (p : ℕ) (env : Env) :
    (readWord p).effects env = [.read p, .read (p + 1), .read (p + 2), .read (p + 3)] := rfl

theorem value_readWord (p : ℕ) (env : Env) :
    (readWord p).value env =
      littleEndian [env.memory (p + 3), env.memory (p + 2), env.memory (p + 1),
        env.memory p] :=
  swapEndian_littleEndian [env.memory p, env.memory (p + 1), env.memory (p + 2),
    env.memory (p + 3)]

theorem queued_bind (x : Handler α) (f : α → Handler β) (env : Env) :
    (x >>= f).queued env = x.queued env ++ (f (x.value env)).queued env :=
  List.filterMap_append

theorem queued_queuePacket (byteArray : ℕ) (len : UInt32) (env : Env) :
    (queuePacket byteArray len).queued env =
      [(List.range len.toNat).map fun i => env.memory (byteArray + i)] := by
  simp [Handler.queued, Handler.effects, queuePacket, List.filterMap_append,
    List.filterMap_map, Function.comp_def]

theorem processed_bind (x : Handler α) (f : α → Handler β) (env : Env) :
    (x >>= f).processed env = x.processed env ++ (f (x.value env)).processed env :=
  List.filterMap_append

theorem processed_queuePacket (byteArray : ℕ) (len : UInt32) (env : Env) :
    (queuePacket byteArray len).processed env = [] := by
  simp [Handler.processed, Handler.effects, queuePacket, List.filterMap_append,
    List.filterMap_map, Function.comp_def]

/-! ### Handlers that stay inside a packet -/

def Handler.Within (x : Handler α) (env : Env) (n : ℕ) : Prop :=
  ∀ i ∈ x.reads env, i < n

instance (x : Handler α) (env : Env) (n : ℕ) : Decidable (x.Within env n) :=
  inferInstanceAs (Decidable (∀ i ∈ x.reads env, i < n))

@[simp] theorem within_pure (a : α) (env : Env) (n : ℕ) :
    (pure a : Handler α).Within env n := by
  intro i hi
  cases hi

@[simp] theorem within_bind (x : Handler α) (f : α → Handler β) (env : Env) (n : ℕ) :
    (x >>= f).Within env n ↔ x.Within env n ∧ (f (x.value env)).Within env n := by
  have hreads : (x >>= f).reads env = x.reads env ++ (f (x.value env)).reads env :=
    List.filterMap_append
  rw [Handler.Within, hreads, List.forall_mem_append]
  rfl

@[simp] theorem within_readByte (p : ℕ) (env : Env) (n : ℕ) :
    (readByte p).Within env n ↔ p < n := by
  simp [Handler.Within, Handler.reads]

@[simp] theorem within_readWord (p : ℕ) (env : Env) (n : ℕ) :
    (readWord p).Within env n ↔ p + 3 < n := by
  simp only [Handler.Within, Handler.reads, effects_readWord]
  simp
  omega

@[simp] theorem within_espLog (level : LogLevel) (format : String)
    (args : Handler (List ℕ)) (env : Env) (n : ℕ) :
    (espLog level format args).Within env n ↔
      (level.threshold ≤ env.coreDebugLevel → args.Within env n) := by
  by_cases h : level.threshold ≤ env.coreDebugLevel <;>
    simp [Handler.Within, Handler.reads, Handler.effects, espLog, h]

@[simp] theorem within_enterProcessor (lingo : UInt8) (len : UInt32) (env : Env) (n : ℕ) :
    (enterProcessor lingo len).Within env n := by
  intro i hi
  cases hi

@[simp] theorem within_queuePacket (byteArray : ℕ) (len : UInt32) (env : Env) (n : ℕ) :
    (queuePacket byteArray len).Within env n ↔
      ∀ i < len.toNat, byteArray + i < n := by
  simp [Handler.Within, Handler.reads, Handler.effects, queuePacket,
    List.filterMap_append, List.filterMap_map, Function.comp_def]

/-! ### Handlers that only read and log -/

def Handler.OnlyLooks (x : Handler α) : Prop :=
  ∀ env, ∀ e ∈ x.effects env, e.queued? = none ∧ e.processed? = none

theorem onlyLooks_pure (a : α) : (pure a : Handler α).OnlyLooks := by
  intro env e he
  rw [effects_pure] at he
  cases he

theorem onlyLooks_bind {x : Handler α} {f : α → Handler β} (hx : x.OnlyLooks)
    (hf : ∀ a, (f a).OnlyLooks) : (x >>= f).OnlyLooks := by
  intro env e he
  rw [effects_bind] at he
  rcases List.mem_append.1 he with he | he
  · exact hx env e he
  · exact hf _ env e he

theorem onlyLooks_readByte (p : ℕ) : (readByte p).OnlyLooks := by
  intro env e he
  rw [effects_readByte, List.mem_singleton] at he
  rw [he]
  exact ⟨rfl, rfl⟩

theorem onlyLooks_readWord (p : ℕ) : (readWord p).OnlyLooks :=
  onlyLooks_bind (onlyLooks_readByte _) fun _ =>
    onlyLooks_bind (onlyLooks_readByte _) fun _ =>
      onlyLooks_bind (onlyLooks_readByte _) fun _ =>
        onlyLooks_bind (onlyLooks_readByte _) fun _ => onlyLooks_pure _

theorem onlyLooks_espLog (level : LogLevel) (format : String)
    {args : Handler (List ℕ)} (h : args.OnlyLooks) :
    (espLog level format args).OnlyLooks := by
  intro env e he
  unfold Handler.effects espLog at he
  split at he
  · rcases List.mem_append.1 he with he | he
    · exact h env e he
    · rw [List.mem_singleton.1 he]
      exact ⟨rfl, rfl⟩
  · cases he

theorem Handler.OnlyLooks.queued_eq_nil {x : Handler α} (h : x.OnlyLooks) (env : Env) :
    x.queued env = [] :=
  List.filterMap_eq_nil_iff.2 fun e he => (h env e he).1

theorem Handler.OnlyLooks.processed_eq_nil {x : Handler α} (h : x.OnlyLooks) (env : Env) :
    x.processed env = [] :=
  List.filterMap_eq_nil_iff.2 fun e he => (h env e he).2

end Snooper

end IpodEsp32
