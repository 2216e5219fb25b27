/-!
# Visibility classes

A header of a library is public, private or project. A directive may also leave the class
unspecified, and then speaks about headers of every class. Public comes before private, private
before project, and this is the order in which classes are processed.
-/

namespace LibraryHeaders

inductive Visibility where
  | pub
  | priv
  | proj
  | unspecified
  deriving DecidableEq, Repr, Inhabited

namespace Visibility

/-- The classes that a header can carry, in processing order. -/
def concrete : List Visibility := [.pub, .priv, .proj]

/-- All classes, in processing order. -/
def all : List Visibility := [.pub, .priv, .proj, .unspecified]

def isConcrete (v : Visibility) : Bool := v != .unspecified

/-- Position in the processing order. -/
def rank : Visibility → Nat
  | .pub => 0
  | .priv => 1
  | .proj => 2
  | .unspecified => 3

instance : LT Visibility := ⟨fun a b => a.rank < b.rank⟩

instance (a b : Visibility) : Decidable (a < b) := inferInstanceAs (Decidable (a.rank < b.rank))

def name : Visibility → String
  | .pub => "public"
  | .priv => "private"
  | .proj => "project"
  | .unspecified => "unspecified"

def ofName? (s : String) : Option Visibility := all.find? (·.name == s)

/-- Whether a directive of class `directive` speaks about headers of class `header`. -/
def admits (directive header : Visibility) : Bool :=
  directive == .unspecified || directive == header

theorem mem_all (v : Visibility) : v ∈ all := by
  cases v <;> decide

theorem mem_concrete {v : Visibility} : v ∈ concrete ↔ v.isConcrete = true := by
  cases v <;> decide

theorem rank_injective {a b : Visibility} (h : a.rank = b.rank) : a = b := by
  revert h
  cases a <;> cases b <;> decide

theorem ofName?_name (v : Visibility) : ofName? v.name = some v := by
  cases v <;> decide

end Visibility

/-- One value for each class that a header can carry. -/
structure ByClass (α : Type) where
  pub : α
  priv : α
  proj : α
  deriving DecidableEq, Repr

namespace ByClass

variable {α : Type}

def replicate (a : α) : ByClass α := ⟨a, a, a⟩

/-- The entries with their classes, in processing order. -/
def entries (t : ByClass α) : List (Visibility × α) :=
  [(.pub, t.pub), (.priv, t.priv), (.proj, t.proj)]

/-- The entries that are there, in processing order. -/
def present (t : ByClass (Option α)) : List (Visibility × α) :=
  t.entries.filterMap fun e => e.2.map (e.1, ·)

/-- Changes the entry of one class; without a class there is nothing to change. -/
def modify (t : ByClass α) (v : Visibility) (f : α → α) : ByClass α :=
  match v with
  | .pub => { t with pub := f t.pub }
  | .priv => { t with priv := f t.priv }
  | .proj => { t with proj := f t.proj }
  | .unspecified => t

end ByClass

end LibraryHeaders
