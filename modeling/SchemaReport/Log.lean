/-! Log records, and computations that leave records behind. What is logged never changes what is
computed: a record can only be added. -/

namespace SchemaReport

inductive Level
  | error | warn | info | debug | trace
  deriving DecidableEq

namespace Level

/-- A level lets through all records of its own rank or a lower one. -/
def rank : Level → Nat
  | .error => 1
  | .warn => 2
  | .info => 3
  | .debug => 4
  | .trace => 5

def name : Level → String
  | .error => "ERROR"
  | .warn => "WARN"
  | .info => "INFO"
  | .debug => "DEBUG"
  | .trace => "TRACE"

end Level

/-- The parts of the plugin that log. -/
inductive Origin
  | plugin | options | transport | dump | stats | graph
  deriving DecidableEq

def Origin.target : Origin → String
  | .plugin => "protoc_gen_pluginexample"
  | .options => "protoc_gen_pluginexample::config"
  | .transport => "protoc_gen_pluginexample::transport"
  | .dump => "protoc_gen_pluginexample::generator::dump"
  | .stats => "protoc_gen_pluginexample::generator::stats"
  | .graph => "protoc_gen_pluginexample::generator::graph"

structure LogRecord where
  level : Level
  origin : Origin
  text : String
  deriving DecidableEq

structure Logged (α : Type) where
  value : α
  log : List LogRecord

namespace Logged

instance : Monad Logged where
  pure a := ⟨a, []⟩
  bind x f :=
    let y := f x.value
    ⟨y.value, x.log ++ y.log⟩

def note (level : Level) (origin : Origin) (text : String) : Logged Unit :=
  ⟨(), [⟨level, origin, text⟩]⟩

variable {α β : Type}

@[ext] theorem ext {x y : Logged α} (hv : x.value = y.value) (hl : x.log = y.log) : x = y := by
  cases x; cases y; simp_all

@[simp] theorem value_pure (a : α) : (pure a : Logged α).value = a := rfl

@[simp] theorem log_pure (a : α) : (pure a : Logged α).log = [] := rfl

@[simp] theorem value_bind (x : Logged α) (f : α → Logged β) :
    (x >>= f).value = (f x.value).value := rfl

@[simp] theorem log_bind (x : Logged α) (f : α → Logged β) :
    (x >>= f).log = x.log ++ (f x.value).log := rfl

instance : LawfulMonad Logged := LawfulMonad.mk' Logged
  (fun x => by ext1 <;> simp [Functor.map])
  (fun a f => by ext1 <;> simp)
  (fun x f g => by ext1 <;> simp)

end Logged

end SchemaReport
