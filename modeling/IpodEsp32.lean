import IpodEsp32.Firmware.Backlog
import IpodEsp32.Firmware.Drain
import IpodEsp32.Firmware.Staleness
import IpodEsp32.Snooper.BufferBounds
import IpodEsp32.Snooper.Corruption
import IpodEsp32.Snooper.Deadlines
import IpodEsp32.Snooper.Destructor
import IpodEsp32.Snooper.DispatchBounds
import IpodEsp32.Snooper.IdleReset
import IpodEsp32.Snooper.Log
import IpodEsp32.Snooper.Overlap
import IpodEsp32.Snooper.Reset
import IpodEsp32.Snooper.Wire
