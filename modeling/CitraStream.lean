import CitraStream.PixelBuffer
import CitraStream.BlockPrimitives
import CitraStream.ImageDiff
import CitraStream.Checkerboard
import CitraStream.Transport
import CitraStream.FramePump
import CitraStream.Pump
import CitraStream.Selector
import CitraStream.Reference
import CitraStream.Convergence
import CitraStream.Links
import CitraStream.Viewer
import CitraStream.Wire
import CitraStream.EmuThread
