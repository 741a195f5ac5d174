import Six.Selinux.Policy

/-! The baseline policy, which `selinux_seed_baseline_policy` builds when the kernel starts, when a
policy text says so, and when a policy text is rolled back.  The calls stand in the order of the
source, those of one domain as a table, and a loop over the types is a list of calls for each
type. -/

namespace Six.Selinux

open BaseType SecClass Tier

def coreAttrs : UInt32 := attrDomain ||| attrCoredomain
def systemExecAttrs : UInt32 := attrFileType ||| attrSystemFileType ||| attrExecType
def vendorExecAttrs : UInt32 := attrFileType ||| attrVendorFileType ||| attrExecType
def callPerms : UInt32 := sepermBinderCall ||| sepermBinderTransfer
def mountDirPerms : UInt32 := rwDirPerms ||| sepermMount ||| sepermUnmount
def addFindPerms : UInt32 := sepermSvcmgrAdd ||| sepermSvcmgrFind
def entryFilePerms : UInt32 := rxFilePerms ||| sepermEntrypoint

def dyntransPerms : UInt32 :=
  sepermProcTransition ||| sepermProcDyntransition ||| sepermProcSigchld

def caps (cs : List Nat) : UInt32 := cs.foldr (fun cap mask => bit cap ||| mask) 0

/-- The types with their data, in the order of their numbers: a row holds types that are registered
one after the other with the same data. -/
def baseTypes : List (String × Bool × Tier × UInt32) :=
  [(false, systemPublic, attrFileType, ["unlabeled"]),
    (true, systemPublic, coreAttrs ||| attrMlstrusted, ["kernel", "init", "su"]),
    (true, systemPublic, coreAttrs, ["shell"]),
    (true, systemPublic, coreAttrs ||| attrAppdomain, ["untrusted_app"]),
    (true, systemPublic, coreAttrs, ["servicemanager"]),
    (true, systemPublic, coreAttrs ||| attrMlstrusted, ["vold"]),
    (true, systemPrivate, coreAttrs, ["ntfs_3g"]), (true, systemPublic, coreAttrs, ["storaged"]),
    (true, systemPublic, coreAttrs ||| attrAppdomain, ["mediaprovider"]),
    (true, systemPublic, coreAttrs, ["externalstoraged", "adbd"]),
    (true, systemPublic, attrDomain ||| attrVendordomain, ["fwupd"]),
    (true, systemPrivate, coreAttrs, ["httpd", "telnetd"]),
    (true, vendor, attrDomain ||| attrVendordomain, ["fwupd_script"]),
    (false, systemPublic, systemExecAttrs, ["init_exec", "shell_exec", "su_exec",
      "servicemanager_exec", "vold_exec"]),
    (false, systemPrivate, systemExecAttrs, ["ntfs_3g_exec"]),
    (false, systemPublic, systemExecAttrs, ["storaged_exec", "mediaprovider_exec",
      "externalstoraged_exec", "adbd_exec"]),
    (false, systemPublic, vendorExecAttrs, ["fwupd_exec"]),
    (false, vendor, vendorExecAttrs, ["fwupd_script_exec", "fwupdmgr_exec"]),
    (false, systemPrivate, systemExecAttrs, ["httpd_exec", "telnetd_exec"]),
    (false, systemPublic, attrFileType ||| attrSystemFileType, ["rootfs"]),
    (false, systemPublic, systemExecAttrs, ["system_file"]),
    (false, systemPublic, vendorExecAttrs, ["vendor_file"]),
    (false, systemPublic, attrFileType ||| attrVendorFileType, ["vendor_configs_file"]),
    (false, systemPublic, attrFileType ||| attrSystemFileType, ["sepolicy_file"]),
    (false, systemPublic, attrFileType ||| attrDataFileType, ["system_data_file"]),
    (false, systemPublic, attrFileType ||| attrDataFileType ||| attrVendorFileType, [
      "vendor_data_file"]),
    (false, vendor, attrFileType ||| attrDataFileType ||| attrVendorFileType, ["fwupd_data_file"]),
    (false, systemPublic, attrFileType ||| attrDataFileType, ["app_data_file",
      "media_rw_data_file"]),
    (false, systemPublic, attrFileType, ["mnt_media_rw_file", "mnt_media_rw_stub_file", "vfat",
      "ntfs", "tmpfs"]),
    (false, systemPublic, attrFileType ||| attrDataFileType, ["user_home_file"]),
    (false, systemPublic, attrDevType, ["device", "null_device", "zero_device", "random_device",
      "tty_device", "console_device", "devpts", "kmsg_device", "kmem_device", "binder_device",
      "fuse_device", "adb_device", "power_device", "block_device", "root_block_device",
      "swap_block_device", "vold_device", "sdx_block_device"]),
    (false, vendor, attrDevType, ["ufs_dev", "ufs_rpmb_device", "nvme_device",
      "nvme_block_device"]), (false, systemPublic, attrDevType, ["usb_device"]),
    (false, systemPublic, attrProcType, ["proc", "proc_meminfo", "proc_stat", "proc_version",
      "proc_cmdline", "proc_diskstats", "proc_net", "proc_sysrq", "debugfs_tracing"]),
    (false, systemPublic, attrSysfsType, ["sysfs", "sysfs_power", "sysfs_wake_lock",
      "sysfs_devices_block", "sysfs_ufs", "sysfs_nvme"]),
    (false, systemPublic, attrFileType ||| attrSystemFileType, ["shadow_file"]),
    (false, systemPublic, systemExecAttrs, ["fsck_exec"]),
    (false, systemPublic, attrSysfsType, ["selinuxfs", "pstorefs"]),
    (false, systemPublic, attrSvcmgrType, ["default_android_service", "power_service",
      "sysinfo_service", "vold_service", "mount_service", "system_suspend_control_service",
      "mediaprovider_service", "externalstorage_service", "fwupd_service"])].flatMap
    fun (isDomain, tier, attrs, names) => names.map fun name => (name, isDomain, tier, attrs)

def registerBaseTypes : Policy :=
  baseTypes.foldl
    (fun st (name, isDomain, tier, attrs) => st.registerType name isDomain tier attrs) {}

/-- A call that extends the tables.  `privilege` is the body of the loop over the privileged
domains. -/
inductive Call
  | allow (ssid tsid : Nat) (tclass : SecClass) (perms : UInt32)
  | allowAttr (ssid : Nat) (attr : UInt32) (tclass : SecClass) (perms : UInt32)
  | autoTrans (parentDom execSid childDom : Nat)
  | privilege (pd : Nat)
  | xperm (ssid tsid : Nat) (tclass : SecClass) (lo hi : UInt16) (isNeverallow : Bool)

def withheld (st : Policy) (t : Nat) : UInt32 :=
  (if t = sid vendorFile then sepermExecuteNoTrans else 0) |||
  (if t = sid fwupdExec then sepermExecuteNoTrans else 0) |||
  (if t = sid fwupdScriptExec then sepermExecuteNoTrans else 0) |||
  (if t = sid vendorConfigsFile then sepermExecute ||| sepermExecuteNoTrans else 0) |||
  (if t = sid vendorDataFile then sepermExecute ||| sepermExecuteNoTrans else 0) |||
  if 1 ≤ t ∧ st.hasAttr t attrDataFileType then
    sepermExecute ||| sepermExecuteNoTrans ||| sepermEntrypoint
  else 0

/-- A privileged domain is given everything, and then the permissions to execute some types are
taken back. -/
def givePrivilege (st : Policy) (pd : Nat) : Policy :=
  { st with av := fun s t c =>
      if s = pd ∧ t < st.nrTypes then
        if c = file then ~~~(withheld st t) else ~~~0
      else st.av s t c }

def Call.run (st : Policy) : Call → Policy
  | .allow ssid tsid tclass perms => st.allowSid ssid tsid tclass perms
  | .allowAttr ssid attr tclass perms => st.allowAttr ssid attr tclass perms
  | .autoTrans parentDom execSid childDom => st.addDomainAutoTrans parentDom execSid childDom
  | .privilege pd => givePrivilege st pd
  | .xperm ssid tsid tclass lo hi isNeverallow => st.addXperm ssid tsid tclass lo hi isNeverallow

open Call (allow allowAttr autoTrans privilege)

def grants (ssid : Nat) (rows : List (BaseType × SecClass × UInt32)) : List Call :=
  rows.map fun (t, tclass, perms) => allow ssid (sid t) tclass perms

def xperm (s t : BaseType) (tclass : SecClass) (lo hi : UInt16) (isNeverallow : Bool) : Call :=
  .xperm (sid s) (sid t) tclass lo hi isNeverallow

def xperms (s : BaseType) (rows : List (BaseType × SecClass × UInt16 × UInt16)) : List Call :=
  rows.map fun (t, tclass, lo, hi) => xperm s t tclass lo hi false

def sgIo : UInt16 := 0x2285

def selfCalls (d : Nat) : List Call :=
  [allow d d process (sepermProcFork ||| sepermProcSigchld ||| sepermProcSigkill |||
      sepermProcSigstop ||| sepermProcSignal ||| sepermProcGetsched ||| sepermProcSetsched |||
      sepermProcGetpgid ||| sepermProcSetpgid ||| sepermProcGetcap ||| sepermProcSetrlimit),
    allow d d fd sepermUse, allow d d dir roDirPerms, allow d d file rwFilePerms,
    allow d d lnkFile roFilePerms, allow d d fifoFile rwFilePerms, allow d d sockFile rwFilePerms]

/-- File descriptors and pipes of other domains; `ntfs_3g` is confined more strictly. -/
def inheritCalls (d : Nat) : List Call :=
  if d ≠ sid ntfs3g then
    grants d [(init, fd, sepermUse), (su, fd, sepermUse), (shell, fd, sepermUse),
      (adbd, fd, sepermUse), (init, fifoFile, rwFilePerms), (su, fifoFile, rwFilePerms),
      (shell, fifoFile, rwFilePerms), (adbd, fifoFile, rwFilePerms),
      (untrustedApp, fifoFile, rwFilePerms), (init, process, sepermProcSigchld),
      (su, process, sepermProcSigchld), (shell, process, sepermProcSigchld)]
  else []

def rootfsCalls (d : Nat) : List Call :=
  grants d [(rootfs, dir, roDirPerms), (rootfs, lnkFile, roFilePerms),
    (rootfs, file, roFilePerms), (systemFile, dir, roDirPerms)]

def systemFileCalls (d : Nat) : List Call :=
  if d ≠ sid ntfs3g then
    grants d [(systemFile, file, roFilePerms ||| sepermExecute ||| sepermEntrypoint),
      (shellExec, file, roFilePerms ||| sepermExecute ||| sepermEntrypoint)]
  else
    grants d [(systemFile, file, roFilePerms)]

def deviceCalls (d : Nat) : List Call :=
  grants d [(systemFile, lnkFile, roFilePerms), (vendorFile, dir, roDirPerms),
    (vendorFile, lnkFile, roFilePerms), (device, dir, roDirPerms),
    (device, lnkFile, roFilePerms), (blockDevice, dir, roDirPerms),
    (nullDevice, chrFile, rwFilePerms), (zeroDevice, chrFile, rwFilePerms),
    (randomDevice, chrFile, roFilePerms), (ttyDevice, chrFile, rwFilePerms),
    (consoleDevice, chrFile, rwFilePerms), (devpts, dir, roDirPerms),
    (devpts, chrFile, rwFilePerms)]

def scratchCalls (d : Nat) : List Call :=
  if d ≠ sid ntfs3g then
    grants d [(tmpfs, dir, rwDirPerms), (tmpfs, file, rwFilePerms),
      (tmpfs, fifoFile, rwFilePerms), (tmpfs, sockFile, rwFilePerms),
      (systemFile, fifoFile, rwFilePerms)]
  else []

def procCalls (d : Nat) : List Call :=
  grants d [(proc, dir, roDirPerms), (proc, file, roFilePerms), (proc, lnkFile, roFilePerms),
    (procMeminfo, file, roFilePerms), (procStat, file, roFilePerms),
    (procVersion, file, roFilePerms), (procCmdline, file, roFilePerms), (sysfs, dir, roDirPerms),
    (selinuxfs, dir, roDirPerms), (selinuxfs, file, rwFilePerms),
    (selinuxfs, chrFile, rwFilePerms), (sepolicyFile, dir, roDirPerms),
    (sepolicyFile, file, roFilePerms), (vendorConfigsFile, dir, roDirPerms),
    (vendorConfigsFile, file, roFilePerms)]

def domainCalls (d : Nat) : List Call :=
  selfCalls d ++ inheritCalls d ++ rootfsCalls d ++ systemFileCalls d ++ deviceCalls d ++
    scratchCalls d ++ procCalls d

def coredomainCalls (d : Nat) : List Call :=
  if d = sid ntfs3g then []
  else
    grants d [(systemFile, file, entryFilePerms), (shellExec, file, entryFilePerms),
      (systemDataFile, dir, roDirPerms)]

def autoTransCalls : List Call :=
  [(kernel, initExec, init), (init, servicemanagerExec, servicemanager), (init, voldExec, vold),
    (init, storagedExec, storaged), (init, mediaproviderExec, mediaprovider),
    (init, externalstoragedExec, externalstoraged), (init, adbdExec, adbd),
    (init, fwupdExec, fwupd), (init, fwupdScriptExec, fwupdScript), (init, httpdExec, httpd),
    (init, telnetdExec, telnetd), (vold, ntfs3gExec, ntfs3g), (su, voldExec, vold),
    (su, storagedExec, storaged), (su, mediaproviderExec, mediaprovider),
    (su, externalstoragedExec, externalstoraged), (su, fwupdExec, fwupd), (shell, suExec, su),
    (untrustedApp, suExec, su), (adbd, shellExec, shell)].map
    fun (parentDom, execSid, childDom) =>
      autoTrans (sid parentDom) (sid execSid) (sid childDom)

def servicemanagerCalls : List Call :=
  grants (sid servicemanager) [(binderDevice, chrFile, rwFilePerms), (servicemanager, binder,
      sepermBinderSetContextMgr ||| sepermBinderCall ||| sepermBinderTransfer)] ++
    [allowAttr (sid servicemanager) attrDomain binder callPerms, allowAttr (sid servicemanager)
      attrSvcmgrType serviceManager (addFindPerms ||| sepermSvcmgrList),
      allowAttr (sid servicemanager) attrDomain dir roDirPerms,
      allowAttr (sid servicemanager) attrDomain file roFilePerms] ++
    grants (sid servicemanager) [(selinuxfs, chrFile, rwFilePerms),
      (selinuxfs, file, rwFilePerms), (sysfsPower, dir, roDirPerms),
      (sysfsPower, chrFile, rwFilePerms), (sysfsPower, file, rwFilePerms),
      (sysfsWakeLock, chrFile, rwFilePerms), (sysfsWakeLock, file, rwFilePerms),
      (powerDevice, chrFile, rwFilePerms),
      (servicemanager, security, sepermSecComputeAv ||| sepermSecCheckContext)]

def voldCalls : List Call :=
  grants (sid vold) [(vold, capability, caps [capSysAdmin, capSysRawio, capMknod, capChown,
      capFowner, capFsetid, capDacOverride, capDacReadSearch, capSetuid, capSetgid, capKill]),
      (ntfs3g, process, sepermGetattr ||| sepermProcSignal ||| sepermProcSigkill),
      (binderDevice, chrFile, rwFilePerms), (servicemanager, binder, callPerms)] ++
    [allowAttr (sid vold) attrDomain binder callPerms] ++
    grants (sid vold) [(voldService, serviceManager, addFindPerms),
      (mountService, serviceManager, addFindPerms),
      (mediaproviderService, serviceManager, sepermSvcmgrFind),
      (externalstorageService, serviceManager, sepermSvcmgrFind),
      (fuseDevice, chrFile, rwFilePerms), (device, dir, rwDirPerms),
      (blockDevice, dir, rwDirPerms), (voldDevice, dir, mountDirPerms),
      (voldDevice, blkFile, rwFilePerms), (blockDevice, blkFile, rwFilePerms),
      (sdxBlockDevice, blkFile, rwFilePerms), (nvmeDevice, blkFile, rwFilePerms),
      (nvmeDevice, chrFile, rwFilePerms), (nvmeBlockDevice, blkFile, rwFilePerms),
      (sysfsPower, dir, roDirPerms), (sysfsPower, chrFile, rwFilePerms),
      (sysfsPower, file, rwFilePerms), (sysfsWakeLock, chrFile, rwFilePerms),
      (sysfsWakeLock, file, rwFilePerms), (powerDevice, chrFile, rwFilePerms),
      (mntMediaRwFile, dir, mountDirPerms), (mntMediaRwFile, file, rwFilePerms),
      (mntMediaRwFile, lnkFile, rwFilePerms), (mntMediaRwStubFile, dir, mountDirPerms),
      (mntMediaRwStubFile, lnkFile, rwFilePerms), (mediaRwDataFile, dir, mountDirPerms),
      (mediaRwDataFile, file, rwFilePerms), (mediaRwDataFile, lnkFile, rwFilePerms),
      (systemDataFile, dir, rwDirPerms), (systemDataFile, file, rwFilePerms),
      (vfat, filesystem, sepermMount ||| sepermUnmount ||| sepermGetattr),
      (vfat, dir, mountDirPerms), (vfat, file, rwFilePerms),
      (ntfs, filesystem, sepermMount ||| sepermUnmount ||| sepermGetattr),
      (ntfs, dir, mountDirPerms), (ntfs, file, rwFilePerms), (procDiskstats, file, roFilePerms)] ++
    xperms vold [(voldDevice, blkFile, 0x0000, 0xffff), (blockDevice, blkFile, 0x0000, 0xffff),
      (sdxBlockDevice, blkFile, 0x0000, 0xffff), (nvmeDevice, blkFile, 0x0000, 0xffff),
      (nvmeDevice, chrFile, 0x0000, 0xffff), (nvmeBlockDevice, blkFile, 0x0000, 0xffff)]

def ntfs3gCalls : List Call :=
  grants (sid ntfs3g) [(vold, fd, sepermUse), (fuseDevice, chrFile, rwFilePerms),
      (voldDevice, blkFile, rwFilePerms), (voldDevice, dir, sepermSearch ||| sepermGetattr),
      (blockDevice, dir, sepermSearch ||| sepermGetattr), (vold, fifoFile, rwFilePerms)] ++
    xperms ntfs3g [(voldDevice, blkFile, 0x0300, 0x033f), (voldDevice, blkFile, 0x125d, 0x127f)]

def fwupdCalls : List Call :=
  grants (sid fwupd) [(fwupd, capability, caps [capSysRawio, capSysAdmin]),
      (kmsgDevice, chrFile, sepermWrite), (usbDevice, dir, roDirPerms),
      (usbDevice, chrFile, rwFilePerms), (vendorFile, file, rxFilePerms),
      (fwupdExec, file, entryFilePerms), (binderDevice, chrFile, rwFilePerms),
      (servicemanager, binder, callPerms)] ++
    [allowAttr (sid fwupd) attrDomain binder callPerms] ++
    grants (sid fwupd) [(fwupdScript, fd, sepermUse),
      (fwupdService, serviceManager, addFindPerms), (fwupdDataFile, dir, rwDirPerms),
      (fwupdDataFile, file, rwFilePerms), (fwupdDataFile, lnkFile, rwFilePerms),
      (vendorDataFile, dir, rwDirPerms), (vendorDataFile, file, rwFilePerms),
      (vendorDataFile, lnkFile, rwFilePerms), (vendorConfigsFile, dir, rwDirPerms),
      (vendorConfigsFile, file, rwFilePerms), (systemDataFile, dir, roDirPerms),
      (sdxBlockDevice, blkFile, rwFilePerms), (ufsDev, chrFile, rwFilePerms),
      (ufsRpmbDevice, chrFile, rwFilePerms), (nvmeDevice, chrFile, rwFilePerms),
      (nvmeDevice, blkFile, rwFilePerms), (nvmeBlockDevice, chrFile, rwFilePerms),
      (nvmeBlockDevice, blkFile, rwFilePerms), (voldDevice, blkFile, rwFilePerms),
      (blockDevice, blkFile, roFilePerms), (procDiskstats, file, roFilePerms)] ++
    xperms fwupd [(sdxBlockDevice, blkFile, sgIo, sgIo),
      (sdxBlockDevice, blkFile, 0x1272, 0x1272), (sdxBlockDevice, blkFile, 0x5540, 0x5543),
      (ufsDev, chrFile, sgIo, sgIo), (ufsDev, chrFile, 0x5540, 0x5543),
      (ufsRpmbDevice, chrFile, 0x5540, 0x5543), (nvmeBlockDevice, blkFile, 0x4e40, 0x4e43),
      (nvmeDevice, chrFile, 0x4e40, 0x4e43), (nvmeDevice, blkFile, 0x4e40, 0x4e43),
      (voldDevice, blkFile, sgIo, sgIo), (voldDevice, blkFile, 0x5382, 0x5386),
      (voldDevice, blkFile, 0x5540, 0x5543)] ++
    grants (sid fwupdScript) [(fwupdmgrExec, file, entryFilePerms),
      (vendorFile, file, rxFilePerms), (binderDevice, chrFile, rwFilePerms),
      (servicemanager, binder, callPerms), (fwupd, binder, callPerms),
      (fwupdService, serviceManager, sepermSvcmgrFind), (fwupdDataFile, dir, rwDirPerms),
      (fwupdDataFile, file, rwFilePerms)]

def storagedCalls : List Call :=
  grants (sid storaged) [(storaged, capability, caps [capSysAdmin, capDacOverride,
      capDacReadSearch]), (binderDevice, chrFile, rwFilePerms),
      (servicemanager, binder, callPerms)] ++
    [allowAttr (sid storaged) attrDomain binder callPerms] ++
    grants (sid storaged) [(powerService, serviceManager, addFindPerms),
      (sysinfoService, serviceManager, addFindPerms),
      (suspendService, serviceManager, addFindPerms),
      (voldService, serviceManager, sepermSvcmgrFind),
      (mountService, serviceManager, addFindPerms), (systemDataFile, dir, rwDirPerms),
      (mediaRwDataFile, dir, rwDirPerms), (rootfs, dir, rwDirPerms),
      (sysfsPower, dir, roDirPerms), (sysfsPower, chrFile, rwFilePerms),
      (sysfsPower, file, rwFilePerms), (sysfsWakeLock, chrFile, rwFilePerms),
      (sysfsWakeLock, file, rwFilePerms), (powerDevice, chrFile, rwFilePerms),
      (pstorefs, dir, roDirPerms), (pstorefs, file, roFilePerms),
      (procDiskstats, file, roFilePerms)] ++ [allowAttr (sid storaged) attrDomain dir roDirPerms,
      allowAttr (sid storaged) attrDomain file roFilePerms]

def mediaCalls : List Call :=
  grants (sid mediaprovider) [(mediaprovider, capability, caps [capSysAdmin, capDacOverride,
      capDacReadSearch, capChown, capFowner]), (fuseDevice, chrFile, rwFilePerms),
      (binderDevice, chrFile, rwFilePerms), (servicemanager, binder, callPerms)] ++
    [allowAttr (sid mediaprovider) attrDomain binder callPerms] ++
    grants (sid mediaprovider) [(mediaproviderService, serviceManager, addFindPerms),
      (mountService, serviceManager, sepermSvcmgrFind),
      (externalstorageService, serviceManager, sepermSvcmgrFind),
      (mntMediaRwStubFile, dir, mountDirPerms), (mntMediaRwFile, dir, mountDirPerms),
      (mntMediaRwFile, file, rwFilePerms), (mntMediaRwFile, lnkFile, rwFilePerms),
      (mediaRwDataFile, dir, mountDirPerms), (mediaRwDataFile, file, rwFilePerms),
      (mediaRwDataFile, lnkFile, rwFilePerms), (systemDataFile, dir, rwDirPerms),
      (systemDataFile, file, rwFilePerms), (rootfs, dir, rwDirPerms),
      (appDataFile, dir, rwDirPerms), (appDataFile, file, rwFilePerms), (vfat, dir, rwDirPerms),
      (vfat, file, rwFilePerms), (ntfs, dir, rwDirPerms), (ntfs, file, rwFilePerms)] ++
    grants (sid externalstoraged) [(externalstoraged, capability, caps [capDacOverride,
      capDacReadSearch]), (binderDevice, chrFile, rwFilePerms),
      (servicemanager, binder, callPerms)] ++
    [allowAttr (sid externalstoraged) attrDomain binder callPerms] ++
    grants (sid externalstoraged) [(externalstorageService, serviceManager, addFindPerms),
      (mediaproviderService, serviceManager, sepermSvcmgrFind),
      (mountService, serviceManager, sepermSvcmgrFind),
      (voldService, serviceManager, sepermSvcmgrFind), (mntMediaRwStubFile, dir, roDirPerms),
      (mntMediaRwFile, dir, rwDirPerms), (mntMediaRwFile, file, rwFilePerms),
      (mntMediaRwFile, lnkFile, roFilePerms), (mediaRwDataFile, dir, rwDirPerms),
      (mediaRwDataFile, file, rwFilePerms), (mediaRwDataFile, lnkFile, roFilePerms),
      (systemDataFile, dir, rwDirPerms), (systemDataFile, file, rwFilePerms),
      (vfat, dir, rwDirPerms), (vfat, file, rwFilePerms), (ntfs, dir, rwDirPerms),
      (ntfs, file, rwFilePerms)]

def daemonCalls : List Call :=
  grants (sid adbd) [(adbd, capability, caps [capSetuid, capSetgid, capDacOverride,
      capDacReadSearch, capKill, capSysPtrace, capSysTtyConfig]),
      (adbDevice, chrFile, rwFilePerms), (binderDevice, chrFile, rwFilePerms),
      (servicemanager, binder, callPerms)] ++
    [allowAttr (sid adbd) attrDomain binder callPerms,
      allowAttr (sid adbd) attrSvcmgrType serviceManager (sepermSvcmgrFind ||| sepermSvcmgrList)] ++
    grants (sid adbd) [(shell, process, dyntransPerms ||| sepermProcSignal |||
      sepermProcSigkill),
      (su, process, dyntransPerms ||| sepermProcSignal ||| sepermProcSigkill),
      (adbd, process, sepermProcSetcurrent ||| sepermProcSetexec),
      (systemDataFile, dir, rwDirPerms), (systemDataFile, file, rwFilePerms),
      (userHomeFile, dir, rwDirPerms), (userHomeFile, file, rwFilePerms)] ++
    [allowAttr (sid adbd) attrDomain dir roDirPerms,
      allowAttr (sid adbd) attrDomain file roFilePerms] ++
    grants (sid httpd) [(httpd, capability, caps [capNetBindService]),
      (procNet, file, roFilePerms), (userHomeFile, dir, roDirPerms),
      (userHomeFile, file, roFilePerms)] ++
    grants (sid telnetd) [(telnetd, capability, caps [capNetBindService, capSetuid, capSetgid,
      capSysTtyConfig, capChown, capFowner, capDacOverride, capDacReadSearch]),
      (telnetd, process, sepermProcSetcurrent ||| sepermProcSetexec),
      (procNet, file, roFilePerms), (systemDataFile, dir, rwDirPerms),
      (systemDataFile, file, rwFilePerms), (su, process, dyntransPerms),
      (shell, process, dyntransPerms), (untrustedApp, process, dyntransPerms)]

def shellCalls : List Call :=
  grants (sid shell) [(shell, capability, caps [capSysPtrace]),
      (shellExec, file, entryFilePerms), (fwupdmgrExec, file, rxFilePerms),
      (adbd, fd, sepermUse), (binderDevice, chrFile, rwFilePerms),
      (servicemanager, binder, callPerms)] ++
    [allowAttr (sid shell) attrDomain binder callPerms,
      allowAttr (sid shell) attrSvcmgrType serviceManager
        (sepermSvcmgrFind ||| sepermSvcmgrList)] ++
    grants (sid shell) [(vendorConfigsFile, dir, roDirPerms),
      (vendorConfigsFile, file, roFilePerms), (procDiskstats, file, rwFilePerms),
      (proc, file, rwFilePerms), (procNet, file, roFilePerms),
      (debugfsTracing, file, roFilePerms), (pstorefs, dir, roDirPerms),
      (pstorefs, file, roFilePerms), (sysfsPower, dir, roDirPerms),
      (sysfsPower, chrFile, roFilePerms), (sysfsPower, file, roFilePerms),
      (mntMediaRwStubFile, dir, roDirPerms), (mntMediaRwFile, dir, rwDirPerms),
      (mntMediaRwFile, file, rwFilePerms), (mntMediaRwFile, lnkFile, roFilePerms),
      (mediaRwDataFile, dir, rwDirPerms), (mediaRwDataFile, file, rwFilePerms),
      (mediaRwDataFile, lnkFile, roFilePerms), (vfat, dir, rwDirPerms),
      (vfat, file, rwFilePerms), (ntfs, dir, rwDirPerms), (ntfs, file, rwFilePerms),
      (userHomeFile, dir, rwDirPerms), (userHomeFile, file, rwFilePerms),
      (suExec, file, rxFilePerms), (su, process, sepermProcTransition ||| sepermProcSigchld)] ++
    [allowAttr (sid shell) attrDomain dir roDirPerms,
      allowAttr (sid shell) attrDomain file roFilePerms,
      allowAttr (sid shell) attrDomain lnkFile roFilePerms]

def untrustedAppCalls : List Call :=
  grants (sid untrustedApp) [(shellExec, file, entryFilePerms), (suExec, file, rxFilePerms),
    (su, process, sepermProcTransition ||| sepermProcSigchld),
    (binderDevice, chrFile, rwFilePerms), (servicemanager, binder, callPerms),
    (storaged, binder, callPerms), (vold, binder, callPerms),
    (mediaprovider, binder, callPerms), (externalstoraged, binder, callPerms),
    (powerService, serviceManager, sepermSvcmgrFind),
    (sysinfoService, serviceManager, sepermSvcmgrFind),
    (mountService, serviceManager, sepermSvcmgrFind),
    (mediaproviderService, serviceManager, sepermSvcmgrFind),
    (externalstorageService, serviceManager, sepermSvcmgrFind), (userHomeFile, dir, rwDirPerms),
    (userHomeFile, file, rwFilePerms), (appDataFile, dir, rwDirPerms),
    (appDataFile, file, rwFilePerms), (mediaRwDataFile, dir, rwDirPerms),
    (mediaRwDataFile, file, rwFilePerms), (mediaRwDataFile, lnkFile, roFilePerms)]

/-- The calls of `selinux_seed_baseline_policy` before the `neverallow` rules, in their order. -/
def baseCalls : List Call :=
  (registerBaseTypes.sidsWith attrDomain).flatMap domainCalls ++
  (registerBaseTypes.sidsWith attrCoredomain).flatMap coredomainCalls ++
  autoTransCalls ++ [privilege (sid kernel), privilege (sid init), privilege (sid su)] ++
  servicemanagerCalls ++ voldCalls ++ ntfs3gCalls ++ fwupdCalls ++ storagedCalls ++ mediaCalls ++
  daemonCalls ++ shellCalls ++ untrustedAppCalls

def allExcept (st : Policy) (attr : UInt32) (out : List BaseType) : SidSet :=
  (out.map sid).foldl SidSet.del (st.sidSetAddAttr {} attr)

def setOfTypes (ts : List BaseType) : SidSet := (ts.map sid).foldl SidSet.add {}

def rawDevices : SidSet :=
  setOfTypes [sdxBlockDevice, voldDevice, nvmeDevice, nvmeBlockDevice, ufsDev, ufsRpmbDevice,
    rootBlockDevice]

def baseNeverallows (st : Policy) : List NeverallowRule :=
  [{ src := allExcept st attrDomain [kernel, init, su, vold, fwupd], tgt := {}, isSelf := true,
     tclass := capability, perms := bit capSysRawio },
    { src := allExcept st attrCoredomain [kernel, init, shell, su],
      tgt := st.sidSetAddAttr {} attrVendorFileType, isSelf := false, tclass := file,
      perms := sepermExecuteNoTrans },
    { src := st.sidSetAddAttr {} attrVendordomain, tgt := setOfTypes [systemDataFile],
      isSelf := false, tclass := file, perms := sepermWrite ||| sepermCreate ||| sepermUnlink },
    { src := st.sidSetAddAttr {} attrDomain, tgt := st.sidSetAddAttr {} attrDataFileType,
      isSelf := false, tclass := file,
      perms := sepermExecute ||| sepermExecuteNoTrans ||| sepermEntrypoint },
    { src := setOfTypes [untrustedApp], tgt := rawDevices, isSelf := false, tclass := blkFile,
      perms := sepermRead ||| sepermWrite ||| sepermOpen ||| sepermIoctl },
    { src := setOfTypes [untrustedApp], tgt := rawDevices, isSelf := false, tclass := chrFile,
      perms := sepermRead ||| sepermWrite ||| sepermOpen ||| sepermIoctl },
    { src := setOfTypes [untrustedApp],
      tgt := setOfTypes [fwupdService, voldService, suspendService], isSelf := false,
      tclass := serviceManager, perms := addFindPerms },
    { src := allExcept st attrDomain [kernel, init, su],
      tgt := (st.sidSetAddAttr {} attrDomain).add (sid selinuxfs), isSelf := false,
      tclass := security, perms := sepermSecLoadPolicy ||| sepermSecSetenforce },
    { src := allExcept st attrDomain [kernel, init, su, servicemanager],
      tgt := st.sidSetAddAttr {} attrDomain, isSelf := false, tclass := binder,
      perms := sepermBinderSetContextMgr },
    { src := allExcept st attrDomain [kernel, init, su], tgt := setOfTypes [kmsgDevice],
      isSelf := false, tclass := chrFile, perms := sepermRead ||| sepermOpen }]

def neverallowxpermCalls : List Call :=
  [untrustedApp, shell, storaged, ntfs3g].map fun s =>
    xperm s sdxBlockDevice blkFile sgIo sgIo true

def baseFileContexts : List FileContext :=
  [("/etc/init", true, initExec), ("/bin/init", true, initExec), ("/bin/sh", true, shellExec),
    ("/bin/su", true, suExec), ("/bin/servicemanager", true, servicemanagerExec),
    ("/bin/vold", true, voldExec), ("/bin/ntfs-3g", true, ntfs3gExec),
    ("/bin/ntfsfix", true, ntfs3gExec), ("/bin/mkntfs", true, ntfs3gExec),
    ("/system/bin/ntfs-3g", true, ntfs3gExec), ("/system/bin/ntfsfix", true, ntfs3gExec),
    ("/system/bin/mkntfs", true, ntfs3gExec), ("/bin/storaged", true, storagedExec),
    ("/bin/mediaproviderd", true, mediaproviderExec),
    ("/bin/externalstoraged", true, externalstoragedExec), ("/bin/sadbd", true, adbdExec),
    ("/vendor/bin/fwupd-binder", true, fwupdExec), ("/vendor/bin/fwupd", true, fwupdExec),
    ("/vendor/bin/fwupdmgr", true, fwupdmgrExec), ("/bin/httpd", true, httpdExec),
    ("/bin/telnetd", true, telnetdExec), ("/dev/null", true, nullDevice),
    ("/dev/zero", true, zeroDevice), ("/dev/random", true, randomDevice),
    ("/dev/urandom", true, randomDevice), ("/dev/console", true, consoleDevice),
    ("/dev/tty", false, ttyDevice), ("/dev/ptmx", true, ttyDevice), ("/dev/pts", false, devpts),
    ("/dev/kmsg", true, kmsgDevice), ("/dev/mem", true, kmemDevice),
    ("/dev/kmem", true, kmemDevice), ("/dev/port", true, kmemDevice),
    ("/dev/binder", true, binderDevice), ("/dev/fuse", true, fuseDevice),
    ("/dev/sadb", true, adbDevice), ("/dev/suspend_blocker", true, powerDevice),
    ("/dev/hda1", true, rootBlockDevice), ("/dev/hda2", true, swapBlockDevice),
    ("/dev/hda", true, rootBlockDevice), ("/dev/hdb", false, voldDevice),
    ("/dev/hdc", false, voldDevice), ("/dev/hdd", false, voldDevice),
    ("/dev/sda", false, voldDevice), ("/dev/ufs-bsg", false, ufsDev),
    ("/dev/ufs-rpmb", false, ufsRpmbDevice), ("/dev/ufs", false, sdxBlockDevice),
    ("/dev/nvme0n", false, nvmeBlockDevice), ("/dev/nvme", false, nvmeDevice),
    ("/dev", false, device), ("/sys/fs/selinux", false, selinuxfs),
    ("/sys/fs/pstore", false, pstorefs), ("/sys/power/wake_lock", true, sysfsWakeLock),
    ("/sys/power/wake_unlock", true, sysfsWakeLock), ("/sys/power", false, sysfsPower),
    ("/sys", false, sysfs), ("/proc/meminfo", true, procMeminfo), ("/proc/stat", true, procStat),
    ("/proc/uptime", true, procStat), ("/proc/loadavg", true, procStat),
    ("/proc/version", true, procVersion), ("/proc/cmdline", true, procCmdline),
    ("/proc/nvme", true, procDiskstats), ("/proc/ufs", true, procDiskstats),
    ("/proc/erofs", true, procDiskstats), ("/proc/scsi", true, procDiskstats),
    ("/proc/sysrq-trigger", true, procSysrq), ("/proc/kmsg", true, kmsgDevice),
    ("/proc/ftrace", true, debugfsTracing), ("/proc/locks", true, debugfsTracing),
    ("/proc/timers", true, debugfsTracing), ("/proc/net", false, procNet),
    ("/proc", false, proc), ("/etc/selinux", false, sepolicyFile),
    ("/system/etc/selinux", false, sepolicyFile),
    ("/vendor/etc/selinux", false, vendorConfigsFile), ("/etc/fwupd", false, vendorDataFile),
    ("/etc/utmp", true, systemDataFile), ("/usr/adm", false, systemDataFile),
    ("/var/lib/fwupd", false, vendorDataFile), ("/var/mail", false, userHomeFile),
    ("/var/db", false, mediaRwDataFile), ("/vendor/bin", false, vendorFile),
    ("/vendor/etc", false, vendorConfigsFile), ("/vendor", false, vendorFile),
    ("/data/vendor/fwupd", false, fwupdDataFile), ("/data/vendor", false, vendorDataFile),
    ("/data/media", false, mediaRwDataFile), ("/data/app", false, appDataFile),
    ("/data", false, systemDataFile), ("/mnt/media_rw", false, mntMediaRwFile),
    ("/mnt/expand", false, mntMediaRwFile), ("/mnt/runtime", false, mntMediaRwFile),
    ("/mnt/user", false, mntMediaRwFile), ("/mnt/fuse", false, mntMediaRwFile),
    ("/mnt", false, mntMediaRwStubFile), ("/aux", false, mntMediaRwFile),
    ("/storage", false, mediaRwDataFile), ("/sdcard", false, mediaRwDataFile),
    ("/tmp", false, tmpfs), ("/home", false, userHomeFile),
    ("/.bash_history", true, userHomeFile), ("/bin-sarthak", false, systemFile),
    ("/bin", false, systemFile), ("/system", false, systemFile), ("/etc", false, systemFile),
    ("/usr", false, systemFile), ("/", true, rootfs)].map
    fun (path, exact, t) => ⟨path, exact, sid t⟩

/-- The proofs know it by its tables: to evaluate it runs every call. -/
@[irreducible] def selinuxSeedBaselinePolicy : Policy :=
  let st := baseCalls.foldl Call.run registerBaseTypes
  let st := (baseNeverallows st).foldl Policy.addNeverallow st
  let st := neverallowxpermCalls.foldl Call.run st
  { st with fileContexts := baseFileContexts }

end Six.Selinux
