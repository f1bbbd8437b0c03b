import BloodKernel.Drivers.Floppy

set_option autoImplicit false

/-!
# Tracks that there are not

`drivers/floppy.c` does not check the track it is asked for, and never recalibrates. A seek beyond the last cylinder
leaves the heads behind the count of the controller.

* `Store`, `storeStep`: disks, each with a flag that its drive is lost; `Behind`, `seek_store`: what a seek does to it;
* **`floppy_store`**: the driver is a store of sectors, but a drive that has been asked for a track beyond its last
  finds no sector until it is asked for one of track 0.
-/

namespace BloodKernel.Floppy

open Lib

/-- The disks, the last cylinders of their drives, and whether the heads of a drive are lost. -/
@[ext] structure Store where
  disk : Fin driveCount → Option Disk
  last : Fin driveCount → ℕ
  lost : Fin driveCount → Bool

/-- A track beyond the last loses the drive, and track 0 finds it again. -/
def Store.seek (a : Store) (u : Fin driveCount) (track : U8) : Store :=
  { a with lost := Function.update a.lost u (decide (track ≠ 0 ∧ (a.lost u = true ∨ a.last u < track.toNat))) }

/-- A transfer by drive `u`. -/
def storeTransfer (a : Store) (u : Fin driveCount) (o : Op) : Option ((Bool × Sector) × Store) :=
  (a.disk u).map fun disk =>
    if o.write = true ∧ disk.writeProtected = true ∨
        ¬(a.lost u = false ∧ o.head.toNat < 2 ∧ disk.formatted o.track o.head o.sector = true) then
      ((false, o.buffer), a)
    else if o.write then
      ((true, o.buffer),
        { a with disk := Function.update a.disk u (some (disk.store o.track o.head o.sector o.buffer)) })
    else ((true, disk.sectors o.track o.head o.sector), a)

def storeStep (a : Store) (o : Op) : Option ((Bool × Sector) × Store) :=
  if 3 < o.drive.toNat then some ((false, o.buffer), a)
  else storeTransfer (a.seek (unit o.drive) o.track) (unit o.drive) o

/-- The heads of no drive are further in than the controller takes them to be. -/
def Behind (a : Heads) : Prop := ∀ u, (a.drives u).cylinder ≤ (a.pcn u).toNat

/-- The heads are lost when they are not where the controller takes them to be. -/
def Heads.store (a : Heads) : Store where
  disk u := (a.drives u).disk
  last u := (a.drives u).last
  lost u := decide ((a.drives u).cylinder < (a.pcn u).toNat)

variable {a : Heads} {u : Fin driveCount} {track : U8}

theorem Behind.seek (h : Behind a) (u : Fin driveCount) (track : U8) : Behind (a.seek u track) := by
  intro v
  by_cases hv : v = u
  · subst hv
    have hu : (a.drives v).cylinder ≤ (a.pcn v).toNat := h v
    simp only [Heads.seek, Function.update_self, Drive.step]
    omega
  · simp only [Heads.seek, Function.update_of_ne hv]
    exact h v

/-- **A seek.** -/
theorem seek_store (h : Behind a) (u : Fin driveCount) (track : U8) :
    (a.seek u track).store = a.store.seek u track := by
  have hzero : track = 0 ↔ track.toNat = 0 :=
    ⟨fun h => by rw [h]; rfl, fun h => BitVec.eq_of_toNat_eq h⟩
  have hlost : (a.seek u track).store.lost = (a.store.seek u track).lost := by
    funext v
    by_cases hv : v = u
    · subst hv
      have hu : (a.drives v).cylinder ≤ (a.pcn v).toNat := h v
      simp only [Heads.store, Heads.seek, Store.seek, Function.update_self, Drive.step, ne_eq, hzero,
        decide_eq_true_eq, decide_eq_decide]
      omega
    · simp only [Heads.store, Heads.seek, Store.seek, Function.update_of_ne hv]
  have hdrives (v : Fin driveCount) : ((a.seek u track).drives v).disk = (a.drives v).disk ∧
      ((a.seek u track).drives v).last = (a.drives v).last := by
    by_cases hv : v = u
    · subst hv
      simp only [Heads.seek, Function.update_self, Drive.step]
      exact ⟨trivial, trivial⟩
    · simp only [Heads.seek, Function.update_of_ne hv]
      exact ⟨trivial, trivial⟩
  have hdisk : (a.seek u track).store.disk = (a.store.seek u track).disk := funext fun v => (hdrives v).1
  have hlast : (a.seek u track).store.last = (a.store.seek u track).last := funext fun v => (hdrives v).2
  exact Store.ext hdisk hlast hlost

theorem setDisk_store (a : Heads) (u : Fin driveCount) (disk : Disk) :
    (a.setDisk u disk).store = { a.store with disk := Function.update a.store.disk u (some disk) } := by
  have hdrives (v : Fin driveCount) : ((a.setDisk u disk).drives v).last = (a.drives v).last ∧
      ((a.setDisk u disk).drives v).cylinder = (a.drives v).cylinder := by
    by_cases hv : v = u
    · subst hv
      simp only [Heads.setDisk, Function.update_self]
      exact ⟨trivial, trivial⟩
    · simp only [Heads.setDisk, Function.update_of_ne hv]
      exact ⟨trivial, trivial⟩
  refine Store.ext (funext fun v => ?_) (funext fun v => (hdrives v).1) (funext fun v => ?_)
  · by_cases hv : v = u
    · subst hv
      simp only [Heads.store, Heads.setDisk, Function.update_self]
    · simp only [Heads.store, Heads.setDisk, Function.update_of_ne hv]
  · simp only [Heads.store, (hdrives v).2]
    rfl

theorem Behind.setDisk (h : Behind a) (u : Fin driveCount) (disk : Disk) : Behind (a.setDisk u disk) := by
  intro v
  by_cases hv : v = u
  · subst hv
    simp only [Heads.setDisk, Function.update_self]
    exact h v
  · simp only [Heads.setDisk, Function.update_of_ne hv]
    exact h v

/-- The heads are on the track exactly when they are not lost. -/
theorem has_iff (h : Behind a) (u : Fin driveCount) (disk : Disk) (track head sector : U8) :
    ((a.seek u track).drives u).Has disk track head sector ↔
      (a.store.seek u track).lost u = false ∧ head.toNat < 2 ∧ disk.formatted track head sector = true := by
  have hpcn : (a.seek u track).pcn u = track := Function.update_self _ _ _
  have hle := h.seek u track u
  rw [hpcn] at hle
  rw [Drive.Has, ← seek_store h]
  simp only [Heads.store, hpcn, decide_eq_false_iff_not]
  refine and_congr_left fun _ => ?_
  omega

/-- **A call.** -/
theorem storeStep_eq (h : Behind a) (o : Op) :
    (headsStep a o).map (fun r => (r.1, r.2.store)) = storeStep a.store o := by
  rw [headsStep, storeStep]
  by_cases hd : 3 < o.drive.toNat
  · rw [if_pos hd, if_pos hd]
    rfl
  · rw [if_neg hd, if_neg hd]
    simp only [headsTransfer, storeTransfer, ← seek_store h, Option.map_map]
    refine Option.map_congr fun disk _ => ?_
    have hhas := has_iff h (unit o.drive) disk o.track o.head o.sector
    rw [← seek_store h] at hhas
    simp only [Function.comp_apply, hhas]
    split_ifs
    · rfl
    · rw [setDisk_store]
    · rfl

theorem behind_step (h : Behind a) {o : Op} {r : Bool × Sector} {a' : Heads} (hstep : headsStep a o = some (r, a')) :
    Behind a' := by
  rw [headsStep] at hstep
  by_cases hd : 3 < o.drive.toNat
  · rw [if_pos hd] at hstep
    cases hstep
    exact h
  · rw [if_neg hd, headsTransfer] at hstep
    obtain ⟨disk, -, hr⟩ := Option.map_eq_some_iff.mp hstep
    split_ifs at hr
    · cases hr
      exact h.seek _ _
    · cases hr
      exact (h.seek _ _).setDisk _ _
    · cases hr
      exact h.seek _ _

/-- **The driver is a store of sectors**, when it has what it relies on and the heads start where the controller takes
them to be, or behind. A call for a sector that there is succeeds exactly when, since the last call for track 0 of the
drive, no call has asked the drive for a track beyond its last, and it does not write to a protected disk. -/
theorem floppy_store {buf : U32} {m₀ m : Machine} (h : Given buf m₀.core.services) (hm : floppyInit m₀ = some m)
    (hbehind : Behind m₀.core.heads) {es : List (Op × (Bool × Sector))} {b : Store} :
    (∃ t, Run (step buf) m es t ∧ t.core.heads.store = b) ↔ Run storeStep m₀.core.heads.store es b := by
  rw [← run_image_iff (I := Behind) (fun a o r a' h hs => behind_step h hs) (fun a o h => storeStep_eq h o) hbehind]
  have hk : m₀.core.services = ⟨true, true⟩ := congrArg₂ Services.mk h.irq6 h.tick
  constructor
  · rintro ⟨t, hrun, rfl⟩
    exact ⟨_, (run_heads_iff h.fits hk hm).mp ⟨t, hrun, rfl⟩, rfl⟩
  · rintro ⟨a, hrun, rfl⟩
    obtain ⟨t, ht, rfl⟩ := (run_heads_iff h.fits hk hm).mpr hrun
    exact ⟨t, ht, rfl⟩

/-- The first sector of a track of the first drive is read. -/
def readTrack (track : U8) : Op := ⟨false, 0, track, 0, 1, constant 0⟩

/-- A read beyond the last track, and three of tracks that there are. -/
def lostReads : List (Op × (Bool × Sector)) :=
  [(readTrack 200, (false, constant 0)), (readTrack 5, (false, constant 0)), (readTrack 0, (true, constant 1)),
    (readTrack 5, (true, constant 1))]

theorem exists_lostReads (k : Services) : ∃ b, Run storeStep (onesMachine k).core.heads.store lostReads b :=
  ⟨_, .cons rfl (.cons rfl (.cons rfl (.cons rfl (.nil _))))⟩

theorem floppy_store_lost :
    ∃ m t, floppyInit (onesMachine ⟨true, true⟩) = some m ∧ Run (step 0x1000) m lostReads t := by
  obtain ⟨m, hm, -⟩ := floppyInit_eq (m := onesMachine ⟨true, true⟩) rfl
  have hbehind : Behind (onesMachine ⟨true, true⟩).core.heads := fun _ => le_rfl
  have hgiven : Given 0x1000 (onesMachine ⟨true, true⟩).core.services := ⟨⟨by decide, by decide⟩, rfl, rfl⟩
  obtain ⟨b, hb⟩ := exists_lostReads ⟨true, true⟩
  obtain ⟨t, ht, -⟩ := (floppy_store hgiven hm hbehind).mpr hb
  exact ⟨m, t, hm, ht⟩

end BloodKernel.Floppy
