import ThemeRender.Proofs.Theme.Appending
import ThemeRender.Proofs.Theme.Direct
/-!
What a sink receives. A render writes to frames alone, so the sink is given the page of a render that
succeeds or the error page of one that fails, and nothing of what was written before the failure. It
takes of that page as many bytes as it takes at all, however the page is cut into writes.
-/

namespace ThemeRender

/-! The bytes of a text -/

theorem toList_loop (bytes : ByteArray) (position : Nat) (read : List UInt8) :
    ByteArray.toList.loop bytes position read =
      read.reverse ++ bytes.data.toList.drop position := by
  induction position, read using ByteArray.toList.loop.induct bytes with
  | case1 position read within ih =>
      have inside : position < bytes.data.toList.length := by simpa using within
      have byte : bytes.get! position = bytes.data.toList[position] := by
        simp only [ByteArray.get!, Array.getElem_toList]
        exact getElem!_pos bytes.data position inside
      rw [ByteArray.toList.loop, if_pos within, ih, List.drop_eq_getElem_cons inside, byte]
      simp
  | case2 position read outside =>
      have past : bytes.data.toList.length ≤ position := by simpa using outside
      rw [ByteArray.toList.loop, if_neg outside, List.drop_eq_nil_of_le past, List.append_nil]

theorem toList_toUTF8_append (first second : String) :
    (first ++ second).toUTF8.toList = first.toUTF8.toList ++ second.toUTF8.toList := by
  have bytes : (first ++ second).toUTF8 = first.toUTF8 ++ second.toUTF8 := ByteArray.ext rfl
  rw [bytes]
  unfold ByteArray.toList
  simp [toList_loop]

theorem toList_toUTF8_empty : "".toUTF8.toList = [] := by
  unfold ByteArray.toList
  rw [toList_loop]
  rfl

namespace Sink

def deliverEach : List String → Sink → Bool × Sink
  | [], sink => (true, sink)
  | text :: rest, sink =>
      match sink.deliver text with
      | (true, sink) => deliverEach rest sink
      | (false, sink) => (false, sink)

theorem deliver_empty (sink : Sink) : sink.deliver "" = (true, sink) := by
  obtain ⟨taken, limit?⟩ := sink
  unfold deliver
  rw [toList_toUTF8_empty]
  cases limit? with
  | none => simp
  | some limit => simp

theorem deliver_append (first second : String) (sink : Sink) :
    sink.deliver (first ++ second) =
      match sink.deliver first with
      | (true, sink) => sink.deliver second
      | (false, sink) => (false, sink) := by
  obtain ⟨taken, limit?⟩ := sink
  unfold deliver
  rw [toList_toUTF8_append]
  generalize first.toUTF8.toList = bytes
  generalize second.toUTF8.toList = more
  cases limit? with
  | none => simp
  | some limit =>
      by_cases fits : bytes.length ≤ limit - taken.length
      · have space : limit - (taken.length + bytes.length) =
            limit - taken.length - bytes.length := by omega
        have enough : bytes.length + more.length ≤ limit - taken.length ↔
            more.length ≤ limit - taken.length - bytes.length := by omega
        simp [fits, List.take_append, List.take_of_length_le fits, space, enough]
      · have full : limit - taken.length - bytes.length = 0 := by omega
        have tooLong : ¬ bytes.length + more.length ≤ limit - taken.length := by omega
        simp [fits, tooLong, List.take_append, full]

theorem deliverEach_eq_deliver (texts : List String) (sink : Sink) :
    sink.deliverEach texts = sink.deliver (String.join texts) := by
  induction texts generalizing sink with
  | nil => exact (deliver_empty sink).symm
  | cons text rest ih =>
      rw [String.join_cons, deliver_append, deliverEach]
      simp only [ih]

def firstBytes (limit? : Option Nat) (page : String) : List UInt8 :=
  match limit? with
  | none => page.toUTF8.toList
  | some limit => page.toUTF8.toList.take limit

def Fits (limit? : Option Nat) (page : String) : Prop :=
  ∀ limit ∈ limit?, page.toUTF8.toList.length ≤ limit

theorem deliver_fresh (limit? : Option Nat) (page : String) :
    (deliver page ⟨[], limit?⟩).2.taken = firstBytes limit? page ∧
      ((deliver page ⟨[], limit?⟩).1 = true ↔ Fits limit? page) := by
  cases limit? with
  | none => simp [deliver, firstBytes, Fits]
  | some limit => simp [deliver, firstBytes, Fits]

end Sink

open Sink (firstBytes Fits deliverEach)

variable {σ : Type}

/-- All that a sink is given is one page. It takes the first bytes of it, and the result is `result`
if these are all of them. -/
structure PageOutcome.Delivers (outcome : PageOutcome σ) (limit? : Option Nat) (page : String)
    (result : Except PageError Unit) : Prop where
  taken : outcome.sink.taken = firstBytes limit? page
  whole : Fits limit? page → outcome.result = result
  short : ¬ Fits limit? page → outcome.result = .error (.undelivered Theme.sinkFull)
  written : ∀ texts, String.join texts = page →
    (deliverEach texts ⟨[], limit?⟩).2 = outcome.sink ∧
      ((deliverEach texts ⟨[], limit?⟩).1 = true ↔ Fits limit? page)

namespace Theme

variable {errorPage : ErrorPage} {render : Rendering σ Unit} {room : Workroom σ}

theorem deliverPage_ok {stage : Stage (Workroom σ)} (renders : render ⟨.empty, room⟩ = .ok () stage)
    (limit? : Option Nat) :
    (deliverPage errorPage render ⟨[], limit?⟩ room).Delivers limit? stage.frames.base (.ok ()) := by
  obtain ⟨taken, complete⟩ := Sink.deliver_fresh limit? stage.frames.base
  unfold deliverPage
  rw [renders]
  refine ⟨taken, ?_, ?_, ?_⟩
  · intro fits
    simp [complete.mpr fits]
  · intro tooLong
    simp [Bool.eq_false_iff.mpr (mt complete.mp tooLong)]
  · intro texts whole
    rw [Sink.deliverEach_eq_deliver, whole]
    exact ⟨rfl, complete⟩

theorem deliverPage_error {error : RenderError} {stage : Stage (Workroom σ)}
    (fails : render ⟨.empty, room⟩ = .error error stage) (limit? : Option Nat) :
    (deliverPage errorPage render ⟨[], limit?⟩ room).Delivers limit?
      (errorPage error.title error.message) (.error (.halted error.title error.message)) := by
  obtain ⟨taken, complete⟩ := Sink.deliver_fresh limit? (errorPage error.title error.message)
  unfold deliverPage
  rw [fails]
  refine ⟨taken, ?_, ?_, ?_⟩
  · intro fits
    simp [complete.mpr fits]
  · intro tooLong
    simp [Bool.eq_false_iff.mpr (mt complete.mp tooLong)]
  · intro texts whole
    rw [Sink.deliverEach_eq_deliver, whole]
    exact ⟨rfl, complete⟩

end Theme

namespace PageCall

variable [Store σ]

def rendering (theme : Theme) : PageCall → Theme.Rendering σ Unit
  | .view name options =>
      theme.renderTemplate (some ⟨name, options.locals⟩) s!"layouts/{options.layout}" options.locals
  | .fragment name locals => (theme.host none).renderPartial name locals

def deliver (theme : Theme) (errorPage : ErrorPage) (sink : Sink) (room : Workroom σ) :
    PageCall → PageOutcome σ
  | .view name options => theme.renderView errorPage name options sink room
  | .fragment name locals => theme.renderFragment errorPage name locals sink room

theorem deliver_eq (theme : Theme) (errorPage : ErrorPage) (sink : Sink) (room : Workroom σ)
    (call : PageCall) :
    call.deliver theme errorPage sink room =
      Theme.deliverPage errorPage (call.rendering theme) sink room := by
  cases call with
  | view => rfl
  | fragment => rfl

theorem room_deliver (theme : Theme) (errorPage : ErrorPage) (sink : Sink) (room : Workroom σ)
    (call : PageCall) :
    (call.deliver theme errorPage sink room).room =
      (Outcome.finalState (call.rendering theme) ⟨.empty, room⟩).state := by
  rw [deliver_eq]
  unfold Theme.deliverPage Outcome.finalState
  cases call.rendering theme ⟨.empty, room⟩ with
  | ok => rfl
  | error => rfl

theorem rendering_appends (theme : Theme) (call : PageCall) :
    Staged.Appends (call.rendering (σ := σ) theme) := by
  cases call with
  | view => exact theme.renderNested_appends _ _ _ _
  | fragment => exact theme.renderNested_appends _ _ _ _

/-- A view or a fragment comes to a page or to an error, whatever it has written by then. The sink
takes of the page, or of the error page alone, the bytes that it takes at all. -/
theorem delivers_page_or_error_page (theme : Theme) (errorPage : ErrorPage) (call : PageCall)
    (limit? : Option Nat) (room : Workroom σ) :
    ∃ effect : Effect RenderError (Workroom σ) Unit,
      (∀ frames, call.rendering theme ⟨frames, room⟩ = effect.on frames) ∧
      (call.deliver theme errorPage ⟨[], limit?⟩ room).room = effect.state ∧
      match effect.result with
      | .ok () =>
          (call.deliver theme errorPage ⟨[], limit?⟩ room).Delivers limit? effect.text (.ok ())
      | .error error =>
          (call.deliver theme errorPage ⟨[], limit?⟩ room).Delivers limit?
            (errorPage error.title error.message)
            (.error (.halted error.title error.message)) := by
  obtain ⟨⟨result, text, after⟩, renders⟩ := call.rendering_appends theme room
  refine ⟨⟨result, text, after⟩, renders, ?_⟩
  rw [deliver_eq]
  have outcome := renders .empty
  cases result with
  | ok =>
      have page : (⟨"" ++ text, []⟩ : Frames).base = text := String.empty_append
      constructor
      · unfold Theme.deliverPage
        rw [outcome]
        rfl
      · rw [← page]
        exact Theme.deliverPage_ok outcome limit?
  | error error =>
      constructor
      · unfold Theme.deliverPage
        rw [outcome]
        rfl
      · exact Theme.deliverPage_error outcome limit?

end PageCall

end ThemeRender
