import ThreeAddress.Proofs.Control.Layout
import ThreeAddress.Proofs.Lowering.Mention

namespace ThreeAddress.Control

open Checked Code Lowering

variable {W : Temp → Prop} {env : Env} {exit : Option Label} {s s' : State} {o : Outline}

structure Segment.Within (W : Temp → Prop) (segment : Segment) : Prop where
  mentions : Mentions W segment.code
  value : W segment.value

def Outline.scratch : Outline → List Temp
  | skip | leaf _ | ret _ | leave _ => []
  | seq first rest => first.scratch ++ rest.scratch
  | when _ _ body => body.scratch
  | choose _ _ _ yes no => yes.scratch ++ no.scratch
  | whileLoop _ _ _ body => body.scratch
  | forLoop _ _ _ _ update body => update.scratch ++ body.scratch
  | forEach loop _ _ body => loop.scratch ++ body.scratch

/-- The temporaries of a loop are distinct and are used neither by code in `W` nor by loops within
the loop. -/
structure Each.Apart (W : Temp → Prop) (e : Each) (body : Outline) : Prop where
  element : W e.element
  ascending : ∃ n m, Ascending n e.scratch m
  outside : ∀ t ∈ e.scratch, ¬ W t
  unshared : ∀ t ∈ e.scratch, t ∉ body.scratch

/-- All code of expressions and leaves stays within `W`, the loops over arrays count outside of it,
and jumps out of a loop go to its exit. -/
def Outline.Fits (W : Temp → Prop) (exit : Option Label) : Outline → Prop
  | skip | ret none => True
  | leaf code => Mentions W code
  | seq first rest => first.Fits W exit ∧ rest.Fits W exit
  | when test _ body => test.Within W ∧ body.Fits W exit
  | choose test _ _ yes no => test.Within W ∧ yes.Fits W exit ∧ no.Fits W exit
  | whileLoop _ out test body => test.Within W ∧ body.Fits W (some out)
  | forLoop _ _ out test update body =>
    update.Fits W exit ∧ test.Within W ∧ body.Fits W (some out)
  | forEach loop array guard body =>
    loop.Apart W body ∧ array.Within W ∧ (∀ g ∈ guard, g.Within W) ∧ body.Fits W (some loop.leave)
  | ret (some value) => value.Within W
  | leave target => exit = some target

/-- The receiver and the variables have their temporaries in `W`. -/
structure Covers (W : Temp → Prop) (env : Env) (s : State) : Prop where
  receiver : ∀ t ∈ env.receiver, W t
  bound : ∀ d ∈ s.bound, W d.2

/-- Of the temporaries issued meanwhile, `W` leaves out just those that are listed. -/
def LeavesOut (W : Temp → Prop) (s : State) (own : List Temp) (s' : State) : Prop :=
  ∀ t, IssuedTemp s t s' → (W t ↔ t ∉ own)

theorem LeavesOut.split {s₁ : State} {own₁ own₂ : List Temp} (h : LeavesOut W s (own₁ ++ own₂) s')
    (h₁ : Ascending s.temps own₁ s₁.temps) (h₂ : Ascending s₁.temps own₂ s'.temps) :
    LeavesOut W s own₁ s₁ ∧ LeavesOut W s₁ own₂ s' := by
  constructor
  · intro t ht
    have hlater : t ∉ own₂ := fun hm ↦ absurd (h₂.mem hm).1 (not_lt.mpr ht.2)
    rw [h t ⟨ht.1, ht.2.trans h₂.le⟩, List.mem_append, not_or, and_iff_left hlater]
  · intro t ht
    have hearlier : t ∉ own₁ := fun hm ↦ absurd (h₁.mem hm).2 (not_le.mpr ht.1)
    rw [h t ⟨h₁.le.trans_lt ht.1, ht.2⟩, List.mem_append, not_or, and_iff_right hearlier]

/-- On the way from one state to the other the temporaries `own` are issued for loops, and all else
that comes up is `Good` as long as `W` leaves out just these. -/
structure Footprint (W : Temp → Prop) (env : Env) (s : State) (own : List Temp) (s' : State)
    (Good : Prop) : Prop where
  ascending : Ascending s.temps own s'.temps
  fits : Covers W env s → LeavesOut W s own s' → Good ∧ Covers W env s'

namespace Footprint

variable {s₁ : State} {own own₁ own₂ : List Temp} {new : List Instr} {A B : Prop}

theorem append (h₁ : Footprint W env s own₁ s₁ A) (h₂ : Footprint W env s₁ own₂ s' B) :
    Footprint W env s (own₁ ++ own₂) s' (A ∧ B) := by
  refine ⟨h₁.ascending.append h₂.ascending, fun hc hw ↦ ?_⟩
  obtain ⟨hw₁, hw₂⟩ := hw.split h₁.ascending h₂.ascending
  obtain ⟨ha, hc₁⟩ := h₁.fits hc hw₁
  obtain ⟨hb, hc₂⟩ := h₂.fits hc₁ hw₂
  exact ⟨⟨ha, hb⟩, hc₂⟩

theorem of_emission (e : Emission s s' new own) : Footprint W env s own s' True := by
  refine ⟨e.ascending, fun hc hw ↦ ⟨trivial, hc.receiver, fun d hm ↦ ?_⟩⟩
  obtain ⟨declared, hb, hd⟩ := e.bound_eq
  rw [hb] at hm
  rcases List.mem_append.mp hm with hm | hm
  · exact (hw d.2 (hd d hm).1).mpr (hd d hm).2
  · exact hc.bound d hm

theorem lead (h : Footprint W env s₁ own s' A) (e : Emission s s₁ new []) :
    Footprint W env s own s' A := by
  have he : Footprint W env s [] s₁ True := of_emission e
  obtain ⟨hasc, hfits⟩ := he.append h
  refine ⟨hasc, fun hc hw ↦ ?_⟩
  obtain ⟨⟨-, ha⟩, hc'⟩ := hfits hc hw
  exact ⟨ha, hc'⟩

theorem trail (h : Footprint W env s own s₁ A) (e : Emission s₁ s' new []) :
    Footprint W env s own s' A := by
  obtain ⟨hasc, hfits⟩ := h.append (of_emission e)
  rw [List.append_nil] at hasc hfits
  refine ⟨hasc, fun hc hw ↦ ?_⟩
  obtain ⟨⟨ha, -⟩, hc'⟩ := hfits hc hw
  exact ⟨ha, hc'⟩

theorem of_touches {α : Type} {x : Lower α} {res : α → List Temp} {a : α}
    (hx : Touches env.receiver.toList x res) (h : x s = .ok a s') (e : Emission s s' new []) :
    Footprint W env s [] s' (Mentions W new ∧ ∀ t ∈ res a, W t) := by
  obtain ⟨-, code, hn, ht⟩ := hx h
  have hcode : new = code := List.append_cancel_left (e.code_eq.symm.trans hn)
  subst hcode
  refine ⟨e.ascending, fun hc hw ↦ ?_⟩
  have hissued : ∀ t, IssuedTemp s t s' → W t := fun t hi ↦ (hw t hi).mpr List.not_mem_nil
  obtain ⟨hbound, hres, hm⟩ := ht W (by simpa using hc.receiver) hc.bound hissued
  exact ⟨⟨hm, hres⟩, hc.receiver, hbound⟩

theorem imp (h : Footprint W env s own s' A) (hab : A → B) : Footprint W env s own s' B :=
  ⟨h.ascending, fun hc hw ↦ (h.fits hc hw).imp_left hab⟩

end Footprint

theorem SegmentOf.footprint {segment : Segment} (h : SegmentOf env s segment s') :
    Footprint W env s [] s' (segment.Within W) := by
  obtain ⟨e, he⟩ := h.source
  have ht : Touches env.receiver.toList (e.lower env) fun t ↦ [t] := e.touches (by simp)
  exact (Footprint.of_touches ht he h.emission).imp fun ⟨hm, hv⟩ ↦ ⟨hm, hv _ List.mem_cons_self⟩

theorem LeafAction.touches {x : Lower Unit} (h : LeafAction env x) :
    Touches env.receiver.toList x fun _ ↦ [] :=
  h.tracks Touches.tracking fun {_ place t} hp ht ↦ .append [place, t] rfl rfl (by simp [hp, ht])

theorem LeafOf.footprint {code : List Instr} (h : LeafOf env s code s') :
    Footprint W env s [] s' (Mentions W code) := by
  obtain ⟨x, hx, ha⟩ := h.source
  exact (Footprint.of_touches hx.touches ha h.emission).imp And.left

theorem GuardOf.footprint {l : Label} {guard : Option Segment} (h : GuardOf env l s guard s') :
    Footprint W env s [] s' (∀ g ∈ guard, g.Within W) := by
  cases h with
  | absent => exact (Footprint.of_emission (.refl s)).imp (by simp)
  | present hg ej => exact (hg.footprint.trail ej).imp (by simp)

/-- Temporaries issued behind the variable of a loop and in front of its body are its own. -/
theorem Each.apart_of_leavesOut {e : Each} {body : Outline} {n : Nat}
    (hasc : Ascending n (e.scratch ++ body.scratch) s'.temps) (hs : s.temps ≤ n)
    (he : s.temps < e.element.index) (hn : e.element.index ≤ n)
    (hw : LeavesOut W s (e.scratch ++ body.scratch) s') : e.Apart W body := by
  obtain ⟨m, hown, hbody⟩ := Ascending.of_append e.scratch hasc
  refine ⟨?_, ⟨n, m, hown⟩, fun t ht ↦ ?_, fun t ht hm ↦ ?_⟩
  · have helement : e.element ∉ e.scratch ++ body.scratch := by
      intro hm
      have := (hasc.mem hm).1
      omega
    exact (hw e.element ⟨he, hn.trans hasc.le⟩).mpr helement
  · have hi := hasc.mem (List.mem_append_left body.scratch ht)
    exact (hw t ⟨hs.trans_lt hi.1, hi.2⟩).not_left.mpr (List.mem_append_left _ ht)
  · have h₁ := (hown.mem ht).2
    have h₂ := (hbody.mem hm).1
    omega

theorem LaidOut.footprint (h : LaidOut env exit s o s') :
    Footprint W env s o.scratch s' (o.Fits W exit) := by
  induction h with
  | skip e => exact .of_emission e
  | leaf h => exact h.footprint
  | seq _ _ ihf ihr => exact ihf.append ihr
  | when ht ej _ _ ed ihb => exact ht.footprint.append ((ihb.lead ej).trail ed)
  | choose ht ej _ _ _ eo _ ed ihy ihn =>
    exact ht.footprint.append ((ihy.lead ej).append ((ihn.lead eo).trail ed))
  | whileLoop ea _ ht ej _ _ el ihb =>
    exact (ht.footprint.append ((ihb.lead ej).trail el)).lead ea
  | forLoop ea _ _ _ ec ht ej _ _ el ihu ihb =>
    have hturn := (ht.footprint.lead ec).append ((ihb.lead ej).trail el)
    exact (ihu.append hturn).lead ea
  | @forEach _ _ _ _ _ _ _ _ _ e _ _ _ body ed hd _ ha es _ _ hg en hb el ihb =>
    have hloop : Footprint W env _ (e.scratch ++ body.scratch) _ _ :=
      (Footprint.of_emission es).append (hg.footprint.append
        ((Footprint.of_emission en).append (ihb.trail el)))
    have hall := (ha.footprint.lead ed).append hloop
    refine ⟨hall.ascending, fun hc hw ↦ ?_⟩
    obtain ⟨⟨harray, -, hguard, -, hbody⟩, hc'⟩ := hall.fits hc hw
    have hapart := Each.apart_of_leavesOut hloop.ascending
      (ed.temps_le.trans ha.emission.temps_le) hd.1 (hd.2.trans ha.emission.temps_le) hw
    exact ⟨⟨hapart, harray, hguard, hbody⟩, hc'⟩
  | ret e => exact .of_emission e
  | retValue hv e => exact hv.footprint.trail e
  | leave e => exact (Footprint.of_emission e).imp fun _ ↦ rfl

def Writes (W : Temp → Prop) (code : List Instr) : Prop := ∀ i ∈ code, ∀ t ∈ i.dst?, W t

namespace Writes

variable {code rest : List Instr} {i : Instr}

@[simp] theorem nil : Writes W [] := fun _ h ↦ absurd h List.not_mem_nil

@[simp] theorem append_iff : Writes W (code ++ rest) ↔ Writes W code ∧ Writes W rest :=
  List.forall_mem_append

@[simp] theorem cons_iff : Writes W (i :: code) ↔ (∀ t ∈ i.dst?, W t) ∧ Writes W code :=
  List.forall_mem_cons

theorem of_mentions (h : Mentions W code) : Writes W code := fun i hi t ht ↦
  h i hi t (List.mem_append_left _ (Option.mem_toList.mpr ht))

end Writes

/-- Code that fits mentions temporaries in `W` and those of its loops over arrays. -/
theorem Outline.Fits.flatten_mentions {V : Temp → Prop} (h : o.Fits W exit) (hw : ∀ t, W t → V t)
    (hs : ∀ t ∈ o.scratch, V t) : Mentions V o.flatten := by
  have hcode {segment : Segment} (h : segment.Within W) :
      Mentions V segment.code ∧ V segment.value := ⟨h.mentions.mono hw, hw _ h.value⟩
  induction o generalizing exit with
  | skip => exact .nil
  | leaf code => exact Mentions.mono h hw
  | seq first rest ihf ihr =>
    obtain ⟨hsf, hsr⟩ := List.forall_mem_append.mp hs
    exact Mentions.append_iff.mpr ⟨ihf h.1 hsf, ihr h.2 hsr⟩
  | when test done body ih =>
    obtain ⟨ht, hv⟩ := hcode h.1
    simpa [flatten, Instr.temps, Instr.dst?, Instr.reads] using ⟨ht, hv, ih h.2 hs⟩
  | choose test otherwise done yes no ihy ihn =>
    obtain ⟨hsy, hsn⟩ := List.forall_mem_append.mp hs
    obtain ⟨ht, hv⟩ := hcode h.1
    simpa [flatten, Instr.temps, Instr.dst?, Instr.reads] using
      ⟨ht, hv, ihy h.2.1 hsy, ihn h.2.2 hsn⟩
  | whileLoop again leave test body ih =>
    obtain ⟨ht, hv⟩ := hcode h.1
    simpa [flatten, Instr.temps, Instr.dst?, Instr.reads] using ⟨ht, hv, ih h.2 hs⟩
  | forLoop check again leave test update body ihu ihb =>
    obtain ⟨hsu, hsb⟩ := List.forall_mem_append.mp hs
    obtain ⟨ht, hv⟩ := hcode h.2.1
    simpa [flatten, Instr.temps, Instr.dst?, Instr.reads] using
      ⟨ihu h.1 hsu, ht, hv, ihb h.2.2 hsb⟩
  | forEach loop array guard body ih =>
    obtain ⟨hapart, harray, hguard, hbody⟩ := h
    obtain ⟨hsl, hsb⟩ := List.forall_mem_append.mp hs
    have hg : Mentions V (loop.guardCode guard) := by
      cases guard with
      | none => exact .nil
      | some g =>
        simpa [Each.guardCode, Instr.temps, Instr.dst?, Instr.reads] using hcode (hguard g rfl)
    have hb := ih hbody hsb
    have ha := hcode harray
    have he := hw _ hapart.element
    simp only [Each.scratch, List.forall_mem_cons] at hsl
    simp [flatten, ArrayLoop.setup, ArrayLoop.test, ArrayLoop.fetch, Each.advance,
      Instr.temps, Instr.dst?,
      Instr.reads, hsl, he, ha, hg, hb]
  | ret value =>
    cases value with
    | none => simp [flatten, Instr.temps, Instr.dst?, Instr.reads]
    | some value => simpa [flatten, Instr.temps, Instr.dst?, Instr.reads] using hcode h
  | leave target => simp [flatten, Instr.temps, Instr.dst?, Instr.reads]

/-- What holds of the temporaries of the receiver and the variables and of those issued meanwhile
holds of all that the code mentions. -/
theorem LaidOut.mentions {V : Temp → Prop} (h : LaidOut env exit s o s')
    (hold : Covers (fun t ↦ V t ∧ t.index ≤ s.temps) env s) (hnew : ∀ t, IssuedTemp s t s' → V t) :
    Mentions V o.flatten := by
  have hf : Footprint (fun t ↦ V t ∧ t ∉ o.scratch) env s o.scratch s' _ := h.footprint
  have hscratch (t : Temp) (ht : t ∈ o.scratch) : IssuedTemp s t s' := hf.ascending.mem ht
  have hearly (t : Temp) (ht : t.index ≤ s.temps) : t ∉ o.scratch :=
    fun hm ↦ absurd (hscratch t hm).1 (not_lt.mpr ht)
  have hcover : Covers (fun t ↦ V t ∧ t ∉ o.scratch) env s := by
    refine ⟨fun t ht ↦ ?_, fun d hd ↦ ?_⟩
    · exact (hold.receiver t ht).imp_right (hearly t)
    · exact (hold.bound d hd).imp_right (hearly d.2)
  have hleaves : LeavesOut (fun t ↦ V t ∧ t ∉ o.scratch) s o.scratch s' :=
    fun t ht ↦ and_iff_right (hnew t ht)
  exact (hf.fits hcover hleaves).1.flatten_mentions (fun t ht ↦ ht.1)
    fun t ht ↦ hnew t (hscratch t ht)

/-- Temporaries that belong neither to the receiver nor to a variable are not written any more. -/
theorem LaidOut.spares {ts : List Temp} (h : LaidOut env exit s o s')
    (hold : ∀ t ∈ ts, t.index ≤ s.temps) (hc : Covers (· ∉ ts) env s)
    (hle : Covers (·.index ≤ s.temps) env s) : Writes (· ∉ ts) o.flatten := by
  refine .of_mentions (h.mentions ⟨fun t ht ↦ ?_, fun d hd ↦ ?_⟩ fun t ht hm ↦ ?_)
  · exact ⟨hc.receiver t ht, hle.receiver t ht⟩
  · exact ⟨hc.bound d hd, hle.bound d hd⟩
  · exact absurd (hold t hm) (not_le.mpr ht.1)

end ThreeAddress.Control
