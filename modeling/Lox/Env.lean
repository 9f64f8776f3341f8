import Std.Data.ExtTreeMap
import Lox.Value

set_option autoImplicit false

namespace Lox

structure Env where
  values : Std.ExtTreeMap String Value

namespace Env

def empty : Env := ⟨∅⟩

def define (env : Env) (name : String) (value : Value) : Env :=
  ⟨env.values.insert name value⟩

def get? (env : Env) (name : String) : Option Value := env.values[name]?
def size (env : Env) : Nat := env.values.size
def isEmpty (env : Env) : Bool := env.values.isEmpty

theorem get_empty (name : String) : empty.get? name = none := by
  simp [empty, get?]

theorem get_define (env : Env) (name query : String) (value : Value) :
    (env.define name value).get? query = if name = query then some value else env.get? query := by
  simp [define, get?, Std.ExtTreeMap.getElem?_insert]

theorem same_bindings {a b : Env} (same : ∀ name, a.get? name = b.get? name) : a = b := by
  cases a
  cases b
  exact congrArg Env.mk (Std.ExtTreeMap.ext_getElem? same)

theorem size_define (env : Env) (name : String) (value : Value) :
    (env.define name value).size = if (env.get? name).isSome then env.size else env.size + 1 := by
  simp [define, size, get?, Std.ExtTreeMap.size_insert]

theorem empty_iff_size (env : Env) : env.isEmpty = true ↔ env.size = 0 := by
  simp [isEmpty, size, Std.ExtTreeMap.isEmpty_eq_size_beq_zero]

end Env
end Lox
