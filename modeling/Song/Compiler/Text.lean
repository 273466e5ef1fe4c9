import Song.Lib.Hygiene
import Song.Lib.Supply
import Song.Compiler.Ast

/-!
# Generated text

A generated line is a list of pieces: text as it stands, the variables that the line binds
and uses, and marks for what else a reader of the text needs to know. The text is what the
pieces say one after another; a scope that opens or closes says nothing. A variable is the
generator's (`none`) or a parameter of the method (`some i`, by its position). Variables are
what a generator introduces under a name of its own; the names of types, of the runtime's
functions and of the codecs are text.
-/

namespace Song.Compiler

inductive Piece (μ : Type) where
  | text (s : Str)
  | bind (who : Option Nat) (name : Str)
  | use (who : Option Nat) (name : Str)
  | enter
  | leave
  | mark (m : μ)

namespace Piece

variable {μ : Type}

/-- What a piece says, where `spell` is what the marks say. -/
def str (spell : μ → Str) : Piece μ → Str
  | text s | bind _ s | use _ s => s
  | enter | leave => []
  | mark m => spell m

/-- What it does to the scopes. -/
def scope : Piece μ → List (Hygiene.Event Str)
  | bind who name => [.bind who name]
  | use who name => [.use who name]
  | enter => [.enter]
  | leave => [.leave]
  | text _ | mark _ => []

def marks : Piece μ → List μ
  | mark m => [m]
  | _ => []

/-- A variable of the generator, used. -/
def var (name : String) : Piece μ := use none (lit name)

/-- A variable of the generator, bound. -/
def own (name : String) : Piece μ := bind none (lit name)

end Piece

/-- What a line does to the scopes. -/
def scopesOf {μ : Type} (code : List (Piece μ)) : List (Hygiene.Event Str) := code.flatMap Piece.scope

section
variable {μ : Type} (code code' : List (Piece μ)) (who : Option Nat) (name : Str)

@[simp] theorem scopesOf_nil : scopesOf ([] : List (Piece μ)) = [] := rfl

@[simp] theorem scopesOf_append : scopesOf (code ++ code') = scopesOf code ++ scopesOf code' :=
  List.flatMap_append

@[simp] theorem scopesOf_text (s : Str) : scopesOf (.text s :: code) = scopesOf code := rfl

@[simp] theorem scopesOf_mark (m : μ) : scopesOf (.mark m :: code) = scopesOf code := rfl

@[simp] theorem scopesOf_bind :
    scopesOf (.bind who name :: code) = .bind who name :: scopesOf code := rfl

@[simp] theorem scopesOf_use :
    scopesOf (.use who name :: code) = .use who name :: scopesOf code := rfl

@[simp] theorem scopesOf_enter : scopesOf (.enter :: code) = .enter :: scopesOf code := rfl

@[simp] theorem scopesOf_leave : scopesOf (.leave :: code) = .leave :: scopesOf code := rfl

@[simp] theorem scopesOf_var (s : String) :
    scopesOf (.var s :: code) = .use none (lit s) :: scopesOf code := rfl

@[simp] theorem scopesOf_own (s : String) :
    scopesOf (.own s :: code) = .bind none (lit s) :: scopesOf code := rfl

end

/-- The lists one after another, with `sep` in between. -/
def separated {α : Type} (sep : α) (xss : List (List α)) : List α :=
  (xss.intersperse [sep]).flatten

theorem separated_cons {α : Type} (sep : α) (xs : List α) (xss : List (List α)) :
    separated sep (xs :: xss) = xs ++ xss.flatMap (sep :: ·) := by
  induction xss generalizing xs with
  | nil => simp [separated]
  | cons ys yss ih =>
    have hs : separated sep (xs :: ys :: yss) = xs ++ sep :: separated sep (ys :: yss) := by
      simp [separated]
    rw [hs, ih, List.flatMap_cons, List.cons_append]

/-- What comes of the lists alone, where nothing comes of the separator. -/
theorem flatMap_separated {α β : Type} {f : α → List β} {sep : α} (h : f sep = [])
    (xss : List (List α)) : (separated sep xss).flatMap f = xss.flatMap (List.flatMap f) := by
  cases xss with
  | nil => rfl
  | cons xs xss =>
    rw [separated_cons, List.flatMap_append, List.flatMap_assoc, List.flatMap_cons]
    simp only [List.flatMap_cons, h, List.nil_append]

/-- The parameters of a method, each bound after its type. -/
def paramPieces {μ : Type} (params : List Param) (typed : Ty → Piece μ → List (Piece μ)) :
    List (List (Piece μ)) :=
  params.zipIdx.map fun x => typed x.1.type (.bind (some x.2) x.1.name)

/-- The parameters as the arguments of a call. -/
def argPieces {μ : Type} (params : List Param) : List (List (Piece μ)) :=
  params.zipIdx.map fun x => [.use (some x.2) x.1.name]

def Method.isVoid (m : Method) : Bool := m.returnType.base = .primitive .void

end Song.Compiler
