/-
The public operations of `fat12.h` behind the mount, with everything they return, and the driver as a
transition system over them: any calls, one after the other, on a disk that answers as it likes. A call
is seen after any number of rounds of its loops, so one that never returns is part of it too.
-/
import AltoniumOS.Refine.Slots
import AltoniumOS.System.Runs

namespace AltoniumOS.Fat12

open AltoniumOS.Lib

/-- The operations of `fat12.h` other than `fat12_init`, with their arguments. -/
inductive Call : Type 1 where
  | iterateCurrentDirectory {κ : Type} (cb : κ → DirEntryInfo → Bool × κ) (ctx : κ)
  | iteratePath {κ : Type} (path : List UInt8) (cb : κ → DirEntryInfo → Bool × κ) (ctx : κ)
  | changeDirectory (path : List UInt8)
  | getCwd
  | readFile (path : List UInt8) (buffer : Option Buf) (maxSize : Nat)
  | change (x : Change)
  | flush

/-- What a call returns, the bytes and the context it leaves with its caller included. -/
def Call.Answer : Call → Type
  | @iterateCurrentDirectory κ _ _ => Code × κ
  | @iteratePath κ _ _ _ => Code × κ
  | changeDirectory _ => Code
  | getCwd => List UInt8
  | readFile _ _ _ => Code × Option Buf × Option Nat
  | change _ => Code
  | flush => Code

def Call.exec (fuel : Nat) : (x : Call) → M x.Answer
  | iterateCurrentDirectory cb ctx => Fat12.iterateCurrentDirectory fuel cb ctx
  | iteratePath path cb ctx => Fat12.iteratePath fuel path cb ctx
  | changeDirectory path => Fat12.changeDirectory fuel path
  | getCwd => Fat12.getCwd
  | readFile path buffer maxSize => Fat12.readFile fuel path buffer maxSize
  | change x => x.exec fuel
  | flush => Fat12.flush

/-- Calls made one after the other, each of which meets the condition `K` in the state before it. -/
inductive Trace (K : State → Call → Prop) : State → State → Prop
  | refl (s : State) : Trace K s s
  | step {s s' : State} {x : Call} (fuel : Nat) : Trace K s s' → K s' x → Trace K s (endState (x.exec fuel s'))

/-- What every call keeps is kept by every trace. -/
theorem Trace.invariant {K : State → Call → Prop} {I : State → Prop}
    (step : ∀ s x fuel, I s → K s x → I (endState (x.exec fuel s))) {s s' : State} (h : Trace K s s')
    (hi : I s) : I s' := by
  induction h with
  | refl => exact hi
  | step fuel _ hk ih => exact step _ _ fuel ih hk

/-- Any calls at all. -/
def anyCalls : State → Call → Prop := fun _ _ => True

/-! ## The calls -/

theorem keeps_changeDirectory {I : State → Prop} (hb : Blind I)
    (henter : ∀ s cluster stack, I s → I (s.withCore (·.enter cluster stack))) (fuel : Nat) (path : List UInt8) :
    Keeps I (changeDirectory fuel path) := by
  unfold changeDirectory
  refine (Reads.getCore.keeps hb).bind fun c => ?_
  split
  · exact .pure trivial
  · split
    · exact .pure trivial
    · refine ((reads_changeLoop fuel _ _ _).keeps hb).bind fun r => ?_
      split
      · exact .pure trivial
      · rename_i cluster stack
        exact Keeps.bind (fun s hs => ⟨henter s cluster stack hs, fun _ _ _ => trivial⟩) fun _ => .pure trivial

/-- What no reading, no move, no flush and no change disturbs, no call does. -/
theorem Call.keeps {I : State → Prop} (hb : Blind I)
    (henter : ∀ s cluster stack, I s → I (s.withCore (·.enter cluster stack))) (hroot : Keeps I flushRoot)
    (hfats : Keeps I flushFats) {fuel : Nat} {P : State → Prop} (hp : ∀ s, P s → I s) :
    ∀ x : Call, (∀ y, x = .change y → Carries P I (fun _ s => I s) (y.body fuel)) → ∀ s, P s →
      I (endState (x.exec fuel s))
  | .iterateCurrentDirectory cb ctx, _, s, hs =>
    ((reads_iterateCurrentDirectory fuel cb ctx).keeps hb s (hp s hs)).1
  | .iteratePath path cb ctx, _, s, hs => ((reads_iteratePath fuel path cb ctx).keeps hb s (hp s hs)).1
  | .changeDirectory path, _, s, hs => (keeps_changeDirectory hb henter fuel path s (hp s hs)).1
  | .getCwd, _, s, hs => hp s hs
  | .readFile path buffer maxSize, _, s, hs => ((reads_readFile fuel path buffer maxSize).keeps hb s (hp s hs)).1
  | .flush, _, s, hs => by
    have hflush : Keeps I Fat12.flush := by
      unfold Fat12.flush
      refine (Reads.getCore.keeps hb).bind fun c => ?_
      split
      · exact .pure trivial
      · refine hroot.bind fun r => ?_
        split
        · exact hfats
        · exact .pure trivial
    exact (hflush s (hp s hs)).1
  | .change y, hx, s, hs => by
    have hall : Keeps I flushAll := hroot.bind fun _ => hfats.bind fun _ => .pure trivial
    have hcommit : Carries P I (fun _ s => I s) (committing (y.body fuel)) := by
      unfold committing
      refine (hx y rfl).bind fun r => ?_
      split
      · exact (hall.carries fun s hs => hs).post fun _ _ h => h.1
      · exact .pure fun s hs => ⟨hs, hs⟩
    show I (endState (y.exec fuel s))
    rw [y.exec_eq]
    exact (hcommit s hs).1

end AltoniumOS.Fat12
