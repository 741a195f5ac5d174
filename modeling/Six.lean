import Six.Ota.RoundTrip
import Six.Tmpfs.Tree
import Six.Nvme.Namespace
import Six.Fuse.Node
import Six.Fuse.Lifecycle
import Six.Power.Suspend
import Six.Ota.AntiRollback
import Six.Ext4.TruncateSpec
import Six.Dm.Mapping
import Six.Ufs.Mac
import Six.Binder.Refused
import Six.Binder.Services
import Six.Ota.Handshake
import Six.Erofs.Directory
import Six.Tmpfs.Readdir
import Six.Block.Bounce
import Six.Overlay.Readdir
import Six.Overlay.CopiedUp
import Six.Fwupd.Cabinet
import Six.Fwupd.Version
import Six.Ota.Zip
import Six.Selinux.Exec
import Six.Fwupd.Activation
import Six.Power.Wakelocks
import Six.Fuse.Readdir
import Six.Overlay.Setattr
import Six.Selinux.Tiers
import Six.Fuse.Handles
import Six.Libc.Cond
import Six.Libc.Division
import Six.Libc.Mutex
import Six.Fuse.Writev
import Six.Sed.Ranges
import Six.Vold.Glob
