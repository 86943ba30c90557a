import JniHeaders.Error

/-!
What is reported while headers are generated. An operation hands its notices over with its
result, also where it fails.
-/

namespace JniHeaders

inductive Level where
  | info
  | warn
  deriving DecidableEq, Repr

inductive Notice where
  | skippedFile (path : String) (cause : Error)
  | skippedMember (archive member : String) (cause : Error)
  | skippedMethod (className methodName descriptor : String) (cause : Error)
  | repeatedDeclaration (className methodName descriptor symbol : String)
  | repeatedClass (name input : String)
  | noClassLibrary (home : String)
  | unreadableClassLibrary (home : String) (cause : Error)
  | methodsSkipped (count : Nat)
  | wroteFile (declarations : Nat) (path : String)
  | wroteDirectory (headers : Nat) (path : String)
  deriving DecidableEq, Repr

namespace Notice

def level : Notice → Level
  | wroteFile _ _ | wroteDirectory _ _ => .info
  | _ => .warn

def text : Notice → String
  | skippedFile path cause => "Skipping " ++ path ++ ": " ++ cause.message
  | skippedMember archive member cause =>
    "Skipping " ++ archive ++ "!" ++ member ++ ": " ++ cause.message
  | skippedMethod className methodName descriptor cause =>
    "Skipping native method " ++ className ++ "." ++ methodName ++ descriptor ++ ": "
      ++ cause.message
  | repeatedDeclaration className methodName descriptor symbol =>
    "Skipping duplicate declaration of " ++ className ++ "." ++ methodName ++ descriptor
      ++ " (" ++ symbol ++ ")"
  | repeatedClass name input =>
    "Class " ++ name ++ " found again in " ++ input ++ ", keeping the first"
  | noClassLibrary home => "No class library found in " ++ home
  | unreadableClassLibrary home cause =>
    "Can't read the class library of " ++ home ++ ": " ++ cause.message
  | methodsSkipped count =>
    toString count ++ " native methods were skipped, see the warnings above"
  | wroteFile declarations path =>
    "Wrote " ++ toString declarations ++ " declarations to " ++ path
  | wroteDirectory headers path => "Wrote " ++ toString headers ++ " headers to " ++ path

end Notice

structure Reported (α : Type) where
  notices : List Notice
  result : Except Error α

namespace Reported

variable {α β : Type}

protected def pure (value : α) : Reported α := ⟨[], .ok value⟩

protected def bind (first : Reported α) (next : α → Reported β) : Reported β :=
  match first.result with
  | .ok value => ⟨first.notices ++ (next value).notices, (next value).result⟩
  | .error cause => ⟨first.notices, .error cause⟩

instance : Monad Reported where
  pure := Reported.pure
  bind := Reported.bind

def report (notices : List Notice) : Reported Unit := ⟨notices, .ok ()⟩

def ofExcept (result : Except Error α) : Reported α := ⟨[], result⟩

@[simp] theorem result_report (notices : List Notice) : (report notices).result = .ok () := rfl

@[simp] theorem result_ofExcept (result : Except Error α) : (ofExcept result).result = result := rfl

theorem result_bind (first : Reported α) (next : α → Reported β) :
    (first >>= next).result = first.result.bind fun value => (next value).result := by
  change (Reported.bind first next).result = _
  unfold Reported.bind
  cases first.result with
  | error cause => rfl
  | ok value => rfl

theorem result_bind_of_ok {first : Reported α} {next : α → Reported β} {value : α}
    (h : first.result = .ok value) : (first >>= next).result = (next value).result := by
  rw [result_bind, h]
  rfl

theorem result_bind_eq_ok_iff {first : Reported α} {next : α → Reported β} {value : β} :
    (first >>= next).result = .ok value ↔
      ∃ between, first.result = .ok between ∧ (next between).result = .ok value := by
  rw [result_bind]
  cases first.result with
  | error cause => simp [Except.bind]
  | ok between => simp [Except.bind]

end Reported

end JniHeaders
